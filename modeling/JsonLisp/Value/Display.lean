import JsonLisp.Error
import JsonLisp.Value.Basic

/-!
# The text of a value

Two texts of a value occur in messages: its wire form, and its display form, in which texts are
quoted, constants are capitalised and closures show their code. Either can fail to exist, and then
that failure is the error.

## Main definitions

* `Value.encode`: the wire form as text.
* `Value.display`: the display form; `Value.plainDisplay` leaves a bare text unquoted.
-/

namespace JsonLisp.Value

open Text (ofString quoted)

def encode (v : Value) : Except Error Text := v.wire.write.mapError .noJsonForm

def encodeItems (vs : List Value) : Except Error Text := (Value.list vs).encode

def displayInt (n : Int) : Except Error Text :=
  if isLongNumeral n.natAbs then .error .unprintable else .ok (Text.ofInt n)

def displayFloat : Binary64 → Text
  | .nan _ => ofString "nan"
  | .infinity negative => ofString (if negative then "-inf" else "inf")
  | .finite x => x.toText

def separator : Text := ofString ", "

mutual

def display : Value → Except Error Text
  | .null => .ok (ofString "None")
  | .bool b => .ok (ofString (if b then "True" else "False"))
  | .int n => displayInt n
  | .float x => .ok (displayFloat x)
  | .text t => .ok (quoted t)
  | .list items => return 91 :: Text.join separator (← displayItems items) ++ [93]
  | .map entries => return 123 :: Text.join separator (← displayEntries entries) ++ [125]
  | .closure _ (_ :: parameters :: body) _ => do
    let parts := (← display parameters) :: (← displayItems body)
    return ofString "<closure (fn " ++ Text.join [Text.space] parts ++ ofString ")>"
  | .closure _ _ _ => .error .noParameterList
  | .builtin name => .ok (ofString "Builtin(" ++ quoted name ++ ofString ")")

def displayItems : List Value → Except Error (List Text)
  | [] => .ok []
  | x :: rest => return (← display x) :: (← displayItems rest)

def displayEntries : List (Text × Value) → Except Error (List Text)
  | [] => .ok []
  | (key, x) :: rest =>
    return (quoted key ++ ofString ": " ++ (← display x)) :: (← displayEntries rest)

end

/-- The display form of a list of values. -/
def displayList (vs : List Value) : Except Error Text := (Value.list vs).display

def plainDisplay : Value → Except Error Text
  | .text t => .ok t
  | v => v.display

end JsonLisp.Value
