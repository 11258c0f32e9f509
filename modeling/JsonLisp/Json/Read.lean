import JsonLisp.Json.Basic
import JsonLisp.Text.Numeral

/-!
# Reading JSON

A document is read from the front of a text by recursive descent. A fault is reported at the
first place where no document can continue; inside the reader that place is given by the number
of code points that are left, and `Json.locate` turns it into a line and a column.

## Main definitions

* `Json.readValue`: one document from the front of a text, and the rest.
* `Json.decode`: the one document of a text.
* `Json.decodeAll`: the documents of a text in order, up to the first fault.
-/

namespace JsonLisp

namespace Json

open Text (ofString isDigit)

/-- What is wrong at a place of a text. -/
inductive Flaw where
  | noValue
  | noKey
  | noColon
  | noComma
  | openString
  | controlCharacter
  | badEscape
  | badUnicodeEscape
  | extraText
deriving DecidableEq

def Flaw.message : Flaw → Text
  | .noValue => ofString "Expecting value"
  | .noKey => ofString "Expecting property name enclosed in double quotes"
  | .noColon => ofString "Expecting ':' delimiter"
  | .noComma => ofString "Expecting ',' delimiter"
  | .openString => ofString "Unterminated string starting at"
  | .controlCharacter => ofString "Invalid control character at"
  | .badEscape => ofString "Invalid \\escape"
  | .badUnicodeEscape => ofString "Invalid \\uXXXX escape"
  | .extraText => ofString "Extra data"

/-- Why a text is refused. The type `α` says where a flaw is. -/
inductive Fault (α : Type) where
  | flaw (reason : Flaw) (place : α)
  | constant (name : Text)
  | outOfRange (literal : Text)
  | longInteger (digits : Nat)

/-- A place of a text: its line and column, counted from one, and the code points before it. -/
structure Place where
  line : Nat
  column : Nat
  offset : Nat
deriving DecidableEq

/-- The place before the last `left` code points of a text. -/
def placeAt (t : Text) (left : Nat) : Place :=
  let before := t.take (t.length - left)
  { line := before.count Text.newline + 1
    column := (before.reverse.takeWhile (· != Text.newline)).length + 1
    offset := before.length }

def locate (t : Text) : Fault Nat → Fault Place
  | .flaw reason left => .flaw reason (placeAt t left)
  | .constant name => .constant name
  | .outOfRange literal => .outOfRange literal
  | .longInteger digits => .longInteger digits

def fail {α : Type} (reason : Flaw) (rest : Text) : Except (Fault Nat) α :=
  .error (.flaw reason rest.length)

/-! ### White space and words -/

def isSpace (c : CodePoint) : Bool := c == 32 || c == 9 || c == 10 || c == 13

def skipSpace (t : Text) : Text := t.dropWhile isSpace

/-- The rest of a text that starts with `word`. -/
def afterWord? (word : String) (t : Text) : Option Text :=
  if (ofString word).isPrefixOf t then some (t.drop word.length) else none

/-! ### Strings -/

/-- One unit of a string: a code point as it stands or with a short escape, or the number of a
`\u` escape, which may be half of a pair. -/
inductive StringUnit where
  | plain (c : CodePoint)
  | numbered (c : CodePoint)

def hexValue? (c : CodePoint) : Option Nat :=
  if 48 ≤ c ∧ c ≤ 57 then some (c - 48)
  else if 65 ≤ c ∧ c ≤ 70 then some (c - 55)
  else if 97 ≤ c ∧ c ≤ 102 then some (c - 87)
  else none

def hexNumber? (a b c d : CodePoint) : Option Nat := do
  return 4096 * (← hexValue? a) + 256 * (← hexValue? b) + 16 * (← hexValue? c) + (← hexValue? d)

def shortEscape? (c : CodePoint) : Option CodePoint :=
  if c = 34 ∨ c = 92 ∨ c = 47 then some c
  else if c = 98 then some 8
  else if c = 102 then some 12
  else if c = 110 then some 10
  else if c = 114 then some 13
  else if c = 116 then some 9
  else none

/-- The units up to the closing quote and the text after it. A string that stays open is
reported at its opening quote, where `opening` code points are left. -/
def readUnits (opening : Nat) : Text → Except (Fault Nat) (List StringUnit × Text)
  | [] => .error (.flaw .openString opening)
  | 34 :: rest => .ok ([], rest)
  | [92] => .error (.flaw .openString opening)
  | 92 :: 117 :: a :: b :: c :: d :: e :: rest =>
    match hexNumber? a b c d with
    | none => fail .badUnicodeEscape (117 :: a :: b :: c :: d :: e :: rest)
    | some n => do
      let (units, after) ← readUnits opening (e :: rest)
      return (.numbered n :: units, after)
  | 92 :: 117 :: rest => fail .badUnicodeEscape (117 :: rest)
  | 92 :: c :: rest =>
    match shortEscape? c with
    | none => fail .badEscape (92 :: c :: rest)
    | some n => do
      let (units, after) ← readUnits opening rest
      return (.plain n :: units, after)
  | c :: rest =>
    if c < 32 then fail .controlCharacter (c :: rest)
    else do
      let (units, after) ← readUnits opening rest
      return (.plain c :: units, after)

def isHighSurrogate (c : CodePoint) : Bool := 0xD800 ≤ c && c ≤ 0xDBFF

def isLowSurrogate (c : CodePoint) : Bool := 0xDC00 ≤ c && c ≤ 0xDFFF

/-- The code points of a string: a numbered high surrogate and a numbered low one right after it
are one code point. -/
def joinUnits : List StringUnit → Text
  | [] => []
  | .plain c :: rest => c :: joinUnits rest
  | .numbered high :: .numbered low :: rest =>
    if isHighSurrogate high && isLowSurrogate low then
      (0x10000 + (high - 0xD800) * 0x400 + (low - 0xDC00)) :: joinUnits rest
    else high :: joinUnits (.numbered low :: rest)
  | .numbered c :: rest => c :: joinUnits rest

/-- A string whose opening quote has been read. -/
def readString (rest : Text) : Except (Fault Nat) (Text × Text) := do
  let (units, after) ← readUnits (rest.length + 1) rest
  return (joinUnits units, after)

/-! ### Numbers -/

/-- A number as it is spelled: its digits, and an exponent if it has one. An integer has neither
fraction nor exponent. -/
structure Literal where
  negative : Bool
  whole : Text
  fraction : Text
  exponent : Option Int

def digitValues (t : Text) : List Nat := t.map (· - 48)

/-- The digits after a point; without a digit the point is not part of the number. -/
def readFraction : Text → Text × Text
  | 46 :: rest =>
    match rest.takeWhile isDigit with
    | [] => ([], 46 :: rest)
    | digits => (digits, rest.dropWhile isDigit)
  | t => ([], t)

def exponentDigits? (negative : Bool) (t : Text) : Option (Int × Text) :=
  match t.takeWhile isDigit with
  | [] => none
  | digits =>
    let n : Int := Text.ofDigits (digitValues digits)
    some (if negative then -n else n, t.dropWhile isDigit)

/-- The exponent; without a digit the letter is not part of the number. -/
def readExponent? : Text → Option (Int × Text)
  | 101 :: 45 :: rest | 69 :: 45 :: rest => exponentDigits? true rest
  | 101 :: 43 :: rest | 69 :: 43 :: rest => exponentDigits? false rest
  | 101 :: rest | 69 :: rest => exponentDigits? false rest
  | _ => none

/-- The digits before the point: a zero alone, or digits that do not start with one. -/
def readWhole? : Text → Option (Text × Text)
  | 48 :: rest => some ([48], rest)
  | c :: rest =>
    if isDigit c then some (c :: rest.takeWhile isDigit, rest.dropWhile isDigit) else none
  | [] => none

def readLiteral? (t : Text) : Option (Literal × Text) := do
  let (negative, body) := match t with
    | 45 :: rest => (true, rest)
    | _ => (false, t)
  let (whole, afterWhole) ← readWhole? body
  let (fraction, afterFraction) := readFraction afterWhole
  match readExponent? afterFraction with
  | some (exponent, rest) => return (⟨negative, whole, fraction, some exponent⟩, rest)
  | none => return (⟨negative, whole, fraction, none⟩, afterFraction)

def Literal.isInteger (l : Literal) : Bool := l.fraction.isEmpty && l.exponent.isNone

def Literal.toInt (l : Literal) : Int :=
  let n : Int := Text.ofDigits (digitValues l.whole)
  if l.negative then -n else n

/-- The nearest floating point number. -/
def Literal.toFloat (l : Literal) : Binary64 :=
  Binary64.ofDecimal l.negative (Text.ofDigits (digitValues (l.whole ++ l.fraction)))
    (l.exponent.getD 0 - l.fraction.length)

/-- The number that a literal stands for; `spelled` is its text. -/
def Literal.value (l : Literal) (spelled : Text) : Except (Fault Nat) Json :=
  if l.isInteger then
    if l.whole.length ≤ Text.maxNumeralDigits then .ok (.int l.toInt)
    else .error (.longInteger l.whole.length)
  else
    if l.toFloat.isFinite then .ok (.float l.toFloat) else .error (.outOfRange spelled)

def readNumber (t : Text) : Except (Fault Nat) (Json × Text) :=
  match readLiteral? t with
  | none => fail .noValue t
  | some (literal, rest) => do
    let value ← literal.value (t.take (t.length - rest.length))
    return (value, rest)

/-! ### Documents -/

/-- A document that is neither a string nor a list nor an object. -/
def readScalar (t : Text) : Except (Fault Nat) (Json × Text) :=
  match afterWord? "null" t, afterWord? "true" t, afterWord? "false" t with
  | some rest, _, _ => .ok (.null, rest)
  | _, some rest, _ => .ok (.bool true, rest)
  | _, _, some rest => .ok (.bool false, rest)
  | none, none, none =>
    match ["NaN", "Infinity", "-Infinity"].find? fun word => (afterWord? word t).isSome with
    | some word => .error (.constant (ofString word))
    | none => readNumber t

mutual

/-- One document from the front of a text, and the rest. The first argument bounds the number of
steps; `2 * t.length + 1` are enough. -/
def readValue : Nat → Text → Except (Fault Nat) (Json × Text)
  | 0, t => fail .noValue t
  | _ + 1, 34 :: rest => do
    let (t, after) ← readString rest
    return (.text t, after)
  | steps + 1, 91 :: rest =>
    match skipSpace rest with
    | 93 :: after => .ok (.list [], after)
    | inside => do
      let (items, after) ← readItems steps inside
      return (.list items, after)
  | steps + 1, 123 :: rest =>
    match skipSpace rest with
    | 125 :: after => .ok (.object [], after)
    | inside => do
      let (members, after) ← readMembers steps inside
      return (.object (ofMembers members), after)
  | _ + 1, t => readScalar t

/-- The items of a list from the first one on, through the closing bracket. -/
def readItems : Nat → Text → Except (Fault Nat) (List Json × Text)
  | 0, t => fail .noValue t
  | steps + 1, t => do
    let (item, after) ← readValue steps t
    match skipSpace after with
    | 93 :: rest => return ([item], rest)
    | 44 :: rest =>
      let (items, after) ← readItems steps (skipSpace rest)
      return (item :: items, after)
    | other => fail .noComma other

/-- The members of an object from the first key on, through the closing brace. -/
def readMembers : Nat → Text → Except (Fault Nat) (List (Text × Json) × Text)
  | 0, t => fail .noKey t
  | steps + 1, 34 :: t => do
    let (key, afterKey) ← readString t
    match skipSpace afterKey with
    | 58 :: rest =>
      let (value, after) ← readValue steps (skipSpace rest)
      match skipSpace after with
      | 125 :: rest => return ([(key, value)], rest)
      | 44 :: rest =>
        let (members, after) ← readMembers steps (skipSpace rest)
        return ((key, value) :: members, after)
      | other => fail .noComma other
    | other => fail .noColon other
  | _ + 1, t => fail .noKey t

end

/-- One document from the front of a text, and the rest. -/
def readFront (t : Text) : Except (Fault Nat) (Json × Text) := readValue (2 * t.length + 1) t

/-- The document of a text that holds nothing else but white space of JSON. -/
def decode (t : Text) : Except (Fault Place) Json :=
  match readFront (skipSpace t) with
  | .error fault => .error (locate t fault)
  | .ok (value, rest) =>
    match skipSpace rest with
    | [] => .ok value
    | extra => .error (locate t (.flaw .extraText extra.length))

/-- The documents of a text in order, and the fault that ended them. Between documents any white
space may stand, or none. Each document takes at least one code point. -/
def readFronts : Nat → Text → List Json × Option (Fault Nat)
  | 0, _ => ([], none)
  | bound + 1, t =>
    match t.dropWhile Text.isBlank with
    | [] => ([], none)
    | start =>
      match readFront start with
      | .error fault => ([], some fault)
      | .ok (value, rest) =>
        let (values, fault) := readFronts bound rest
        (value :: values, fault)

def decodeAll (t : Text) : List Json × Option (Fault Place) :=
  let (values, fault) := readFronts t.length t
  (values, fault.map (locate t))

end Json

end JsonLisp
