import JsonLisp.Value.Display

/-!
# Global tables

A table of bindings to which names are only added, each once. There is one for the global values
and one for the macro transformers.

## Main definitions

* `Table.names`: the names, newest first.
* `Table.defineGlobal`, `Table.defineMacro`: one more binding, unless the name is taken.
* `Table.lookup`: the value of a global name.
-/

namespace JsonLisp

structure Table where
  /-- The bindings, newest first. -/
  entries : List (Text × Value)

namespace Table

def empty : Table := ⟨[]⟩

instance : Inhabited Table := ⟨empty⟩

def names (t : Table) : List Text := t.entries.map (·.1)

def size (t : Table) : Nat := t.entries.length

def find? (t : Table) (name : Text) : Option Value := valueUnder? name t.entries

def contains (t : Table) (name : Text) : Bool := t.entries.any (·.1 == name)

def add (t : Table) (name : Text) (value : Value) : Table := ⟨(name, value) :: t.entries⟩

def lookup (t : Table) (name : Text) : Except Error Value :=
  match t.find? name with
  | some value => .ok value
  | none => .error (.unbound name)

def defineGlobal (t : Table) (name : Text) (value : Value) : Except Error Table :=
  if t.contains name then .error (.alreadyGlobal name) else .ok (t.add name value)

def defineMacro (t : Table) (name : Text) (transformer : Value) : Except Error Table :=
  if t.contains name then .error (.alreadyMacro name) else .ok (t.add name transformer)

/-- A definition whose name may be any value; only a text is accepted. -/
def defineGlobalValue (t : Table) (name value : Value) : Except Error Table :=
  match name with
  | .text n => t.defineGlobal n value
  | other => do throw (.demanded .globalName (← other.display))

/-- A macro definition whose name may be any value; only a text is accepted. -/
def defineMacroValue (t : Table) (name transformer : Value) : Except Error Table :=
  match name with
  | .text n => t.defineMacro n transformer
  | other => do throw (.demanded .macroName (← other.display))

def display (t : Table) : Text :=
  Text.ofString "<GlobalEnvironment " ++ Text.ofNat t.size ++ Text.ofString " names>"

end Table

end JsonLisp
