import JsonLisp.Binary64.Basic
import JsonLisp.Text.Basic

/-!
# JSON documents

Integers are unbounded and differ from floating point numbers. The members of an object keep
their order, and an object that was read has each key once.

## Main definitions

* `Json`: documents.
* `Json.putMember`: the member list after one more key is read; a repeated key keeps its first
  position and takes its last value.
-/

namespace JsonLisp

inductive Json where
  | null
  | bool (b : Bool)
  | int (n : Int)
  | float (x : Binary64)
  | text (t : Text)
  | list (items : List Json)
  | object (members : List (Text × Json))

namespace Json

instance : Inhabited Json := ⟨.null⟩

def putMember (members : List (Text × Json)) (key : Text) (value : Json) : List (Text × Json) :=
  match members with
  | [] => [(key, value)]
  | (k, v) :: rest =>
    if k = key then (k, value) :: rest else (k, v) :: putMember rest key value

def ofMembers (pairs : List (Text × Json)) : List (Text × Json) :=
  pairs.foldl (fun members pair => putMember members pair.1 pair.2) []

/-- The value stored under a key. -/
def member? (key : Text) : Json → Option Json
  | .object members => (members.find? (·.1 == key)).map (·.2)
  | _ => none

end Json

end JsonLisp
