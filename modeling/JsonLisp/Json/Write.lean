import JsonLisp.Binary64.Shortest
import JsonLisp.Json.Basic
import JsonLisp.Text.Numeral

/-!
# Writing JSON

The compact text of a document: no spaces, code points from U+0020 on as they are, except for the
quote and the backslash. Infinite numbers, not-a-number and integers of more than
`Text.maxNumeralDigits` digits have no text.

## Main definitions

* `Json.quote`: a text between quotes.
* `Json.write`: the text of a document, or the first of its numbers that has none.
-/

namespace JsonLisp

/-- Why a number has no text. -/
inductive NumberFault where
  | notFinite
  | tooLong
deriving DecidableEq

/-- A natural number with more than `Text.maxNumeralDigits` digits. -/
def isLongNumeral (n : Nat) : Bool := Nat.pow 10 Text.maxNumeralDigits ≤ n

namespace Json

open Text (ofString)

def escapeChar (c : CodePoint) : Text :=
  if c = 34 then ofString "\\\""
  else if c = 92 then ofString "\\\\"
  else if 32 ≤ c then [c]
  else if c = 8 then ofString "\\b"
  else if c = 9 then ofString "\\t"
  else if c = 10 then ofString "\\n"
  else if c = 12 then ofString "\\f"
  else if c = 13 then ofString "\\r"
  else ofString "\\u" ++ Text.hex 4 c

def quote (t : Text) : Text := 34 :: t.flatMap escapeChar ++ [34]

def writeInt (n : Int) : Except NumberFault Text :=
  if isLongNumeral n.natAbs then .error .tooLong else .ok (Text.ofInt n)

def writeFloat : Binary64 → Except NumberFault Text
  | .finite x => .ok x.toText
  | _ => .error .notFinite

def comma : Text := [44]

/-- Texts between brackets, with commas. -/
def bracketed (opening closing : CodePoint) (parts : List Text) : Text :=
  opening :: Text.join comma parts ++ [closing]

mutual

def write : Json → Except NumberFault Text
  | .null => .ok (ofString "null")
  | .bool b => .ok (ofString (if b then "true" else "false"))
  | .int n => writeInt n
  | .float x => writeFloat x
  | .text t => .ok (quote t)
  | .list items => return bracketed 91 93 (← writeItems items)
  | .object members => return bracketed 123 125 (← writeMembers members)

def writeItems : List Json → Except NumberFault (List Text)
  | [] => .ok []
  | x :: rest => return (← write x) :: (← writeItems rest)

def writeMembers : List (Text × Json) → Except NumberFault (List Text)
  | [] => .ok []
  | (key, x) :: rest => return (quote key ++ 58 :: (← write x)) :: (← writeMembers rest)

end

end Json

end JsonLisp
