import JsonLisp.Json.Basic

/-!
# Values

Programs and data are one type: the documents of JSON, closures and references to primitives.
A closure has an identity of its own, the `fn` form it was made from and the scope it was made in.

## Main definitions

* `Value`, and `Environment` for the chain of local scopes, nearest first.
* `Value.ofJson`: a document as a value.
* `Value.wire`: the document that stands for a value on output.
-/

namespace JsonLisp

inductive Value where
  | null
  | bool (b : Bool)
  | int (n : Int)
  | float (x : Binary64)
  | text (t : Text)
  | list (items : List Value)
  | map (entries : List (Text × Value))
  | closure (identity : Nat) (form : List Value) (scope : List (List (Text × Value)))
  | builtin (name : Text)

/-- The bindings of one scope, in the order in which they are searched. -/
abbrev Frame := List (Text × Value)

/-- Local scopes, nearest first. -/
abbrev Environment := List Frame

namespace Value

instance : Inhabited Value := ⟨.null⟩

/-- The text value of a string constant. -/
def word (s : String) : Value := .text (Text.ofString s)

/-! ### Documents -/

mutual

def ofJson : Json → Value
  | .null => .null
  | .bool b => .bool b
  | .int n => .int n
  | .float x => .float x
  | .text t => .text t
  | .list items => .list (ofJsonItems items)
  | .object members => .map (ofJsonMembers members)

def ofJsonItems : List Json → List Value
  | [] => []
  | x :: rest => ofJson x :: ofJsonItems rest

def ofJsonMembers : List (Text × Json) → List (Text × Value)
  | [] => []
  | (key, x) :: rest => (key, ofJson x) :: ofJsonMembers rest

end

mutual

/-- Closures and references to primitives become tagged lists. -/
def wire : Value → Json
  | .null => .null
  | .bool b => .bool b
  | .int n => .int n
  | .float x => .float x
  | .text t => .text t
  | .list items => .list (wireItems items)
  | .map entries => .object (wireEntries entries)
  | .closure _ form scope =>
    .list [.text (Text.ofString "closure"), .list (wireItems form), .list (wireScope scope)]
  | .builtin name => .list [.text (Text.ofString "builtin"), .text name]

def wireItems : List Value → List Json
  | [] => []
  | x :: rest => wire x :: wireItems rest

def wireEntries : List (Text × Value) → List (Text × Json)
  | [] => []
  | (key, x) :: rest => (key, wire x) :: wireEntries rest

/-- Pairs of name and value, nearest first. -/
def wireBindings : List (Text × Value) → List Json
  | [] => []
  | (name, x) :: rest => .list [.text name, wire x] :: wireBindings rest

def wireScope : List (List (Text × Value)) → List Json
  | [] => []
  | frame :: rest => wireBindings frame ++ wireScope rest

end

/-! ### Views -/

/-- Only `false` and `null` are not true. -/
def isTrue : Value → Bool
  | .null => false
  | .bool b => b
  | _ => true

def isBool : Value → Bool
  | .bool _ => true
  | _ => false

/-- What messages call the type of a value. -/
def typeName : Value → Text
  | .null => Text.ofString "NoneType"
  | .bool _ => Text.ofString "bool"
  | .int _ => Text.ofString "int"
  | .float _ => Text.ofString "float"
  | .text _ => Text.ofString "str"
  | .list _ => Text.ofString "list"
  | .map _ => Text.ofString "dict"
  | .closure _ _ _ => Text.ofString "Closure"
  | .builtin _ => Text.ofString "Builtin"

def list? : Value → Option (List Value)
  | .list items => some items
  | _ => none

def text? : Value → Option Text
  | .text t => some t
  | _ => none

end Value

/-- The value stored under a key. -/
def valueUnder? (key : Text) (entries : List (Text × Value)) : Option Value :=
  (entries.find? (·.1 == key)).map (·.2)

end JsonLisp
