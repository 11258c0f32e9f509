import JsonLisp.Evaluation.State
import JsonLisp.Primitive.Arithmetic
import JsonLisp.Primitive.Comparison

/-!
# Primitives

The fixed set of functions that references to primitives name. All but two are pure: `p` prints
its arguments and `globals` lists the global names.

## Main definitions

* `Primitive.ofName?`: the primitive of a name.
* `Primitive.run`: its value for evaluated arguments.
* `Primitive.globalNames`: the primitives that every session binds globally.
-/

namespace JsonLisp

open Text (ofString)

inductive Primitive where
  | arithmetic (op : Operator)
  | comparison (r : Relation)
  | list
  | print
  | globals
  | append
  | conj
  | cons
  | parallelBinding
deriving DecidableEq

namespace Primitive

/-- The primitives with a global name, in the order in which they are listed. -/
def named : List (Text × Primitive) :=
  [(ofString ">=", .comparison .greaterEqual), (ofString ">", .comparison .greater),
    (ofString "==", .comparison .equal), (ofString "!=", .comparison .unequal),
    (ofString "<", .comparison .less), (ofString "<=", .comparison .lessEqual),
    (ofString "+", .arithmetic .add), (ofString "-", .arithmetic .sub),
    (ofString "*", .arithmetic .mul), (ofString "/", .arithmetic .div),
    (ofString "list", .list), (ofString "p", .print), (ofString "globals", .globals),
    (ofString "append", .append), (ofString "conj", .conj), (ofString "cons", .cons)]

def globalNames : List Text := named.map (·.1)

/-- The name of the transformer for parallel bindings, which is no global. -/
def letName : Text := ofString "let"

def ofName? (name : Text) : Option Primitive :=
  if name = letName then some .parallelBinding
  else (named.find? (·.1 == name)).map (·.2)

/-! ### Lists -/

/-- A demand for a list, with the wire form of what stands instead. -/
def demandList {α : Type} (what : Demanded) (found : Value) : Except Error α := do
  throw (.demanded what (← found.encode))

def concatenate (args : List Value) : Except Error Value :=
  match args.mapM Value.list? with
  | some lists => .ok (.list lists.flatten)
  | none => demandList .appendArguments (.list args)

/-- A list with further elements at its end. -/
def addLast : List Value → Except Error Value
  | first :: item :: items =>
    match first with
    | .list xs => .ok (.list (xs ++ item :: items))
    | other => demandList .conjFirst other
  | _ => .error (.argumentCount .conj)

/-- A list with one more element in front. -/
def addFirst : List Value → Except Error Value
  | [item, tail] =>
    match tail with
    | .list xs => .ok (.list (item :: xs))
    | other => demandList .consSecond other
  | _ => .error (.argumentCount .cons)

/-! ### Parallel bindings -/

/-- The elements in pairs; an element without a partner has none. -/
def pairs? : List Value → Option (List (Value × Value))
  | [] => some []
  | [_] => none
  | x :: y :: rest => (pairs? rest).map ((x, y) :: ·)

/-- The call of a function whose parameters are the names and whose arguments are the values. -/
def bindingCall (pairs : List (Value × Value)) (body : List Value) : Value :=
  .list (.list (.word "fn" :: .list (pairs.map (·.1)) :: body) :: pairs.map (·.2))

def expandBindings : List Value → Except Error Value
  | [] => .error (.argumentCount .parallelBinding)
  | .list bindings :: body =>
    match pairs? bindings with
    | some pairs => .ok (bindingCall pairs body)
    | none => do throw (.unpairedBindings (← Value.displayList bindings))
  | other :: _ => do throw (.demanded .bindingList (← other.display))

/-! ### Running -/

/-- Prints the wire form of each value on a line of its own, up to the first that has none. -/
def printAll : List Value → Run Unit
  | [] => pure ()
  | v :: rest => do
    Run.print v.wire
    printAll rest

/-- What `p` passes on: its argument, or the list of them if there are several. -/
def passedOn : List Value → Value
  | [] => .null
  | [v] => v
  | vs => .list vs

def run (p : Primitive) (args : List Value) : Run Value :=
  match p with
  | .arithmetic op => Run.ofExcept (op.fold args)
  | .comparison r => Run.ofExcept (r.chain args)
  | .list => pure (.list args)
  | .print => do
    printAll args
    return passedOn args
  | .globals => return .list ((← get).globals.names.map .text)
  | .append => Run.ofExcept (concatenate args)
  | .conj => Run.ofExcept (addLast args)
  | .cons => Run.ofExcept (addFirst args)
  | .parallelBinding => Run.ofExcept (expandBindings args)

end Primitive

end JsonLisp
