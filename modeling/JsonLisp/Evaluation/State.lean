import JsonLisp.Journal
import JsonLisp.Table

/-!
# State of a session

What evaluation reads and changes: the two tables, the printed documents, the journal, the number of
forms under evaluation and the identity of the next closure. An evaluation that fails keeps the
changes made before the failure.

## Main definitions

* `State`, `Limits` and the monad `Run`.
* `Run.nested`: counts a form while it is evaluated.
-/

namespace JsonLisp

/-- The two depth guards: the greatest number of successive macro expansions and of forms nested
in evaluation. -/
structure Limits where
  expansion : Int
  evaluation : Int
deriving DecidableEq

structure State where
  globals : Table
  macros : Table
  /-- The documents that the program has printed, newest first. -/
  printed : List Json
  /-- Events, newest first. -/
  journal : List Event
  /-- The number of forms under evaluation. -/
  depth : Nat
  nextIdentity : Nat

namespace State

def empty : State where
  globals := .empty
  macros := .empty
  printed := []
  journal := []
  depth := 0
  nextIdentity := 0

instance : Inhabited State := ⟨empty⟩

/-- A document on a line of its own; only documents with a text are printed. -/
def line (document : Json) : Text :=
  match document.write with
  | .ok text => text ++ [Text.newline]
  | .error _ => []

/-- What has been printed, in order. -/
def output (s : State) : Text := s.printed.reverse.flatMap line

end State

abbrev Run := EStateM Error State

namespace Run

def ofExcept {α : Type} : Except Error α → Run α
  | .ok a => pure a
  | .error e => throw e

/-- Prints a document, unless it has no text. The output is in memory, so every text can be written
to it. -/
def print (document : Json) : Run Unit :=
  match document.write with
  | .ok _ => modify fun s => { s with printed := document :: s.printed }
  | .error fault => throw (.noJsonForm fault)

def record (e : Event) : Run Unit := modify fun s => { s with journal := e :: s.journal }

/-- A closure over `scope` that is equal to no other. -/
def newClosure (form : List Value) (scope : Environment) : Run Value :=
  modifyGet fun s =>
    (.closure s.nextIdentity form scope, { s with nextIdentity := s.nextIdentity + 1 })

def defineGlobal (name : Text) (value : Value) : Run Unit := do
  let table ← ofExcept ((← get).globals.defineGlobal name value)
  modify fun s => { s with globals := table }
  record (.definedGlobal name)

def defineMacro (name : Text) (transformer : Value) : Run Unit := do
  let table ← ofExcept ((← get).macros.defineMacro name transformer)
  modify fun s => { s with macros := table }
  record (.definedMacro name)

/-- Counts one more form during `action`, whether it succeeds or fails. -/
def nested {α : Type} (action : Run α) : Run α := fun s =>
  match action { s with depth := s.depth + 1 } with
  | .ok a t => .ok a { t with depth := t.depth - 1 }
  | .error e t => .error e { t with depth := t.depth - 1 }

end Run

end JsonLisp
