import JsonLisp.Value.Display
import JsonLisp.Value.Order

/-!
# Comparison primitives

A comparison of several arguments holds when each of them stands in the relation to the next. The
pairs are looked at from the left until one fails.

## Main definitions

* `Relation.holds`: one pair.
* `Relation.chain`: the comparison of a list of arguments.
-/

namespace JsonLisp

inductive Relation where
  | less
  | lessEqual
  | greater
  | greaterEqual
  | equal
  | unequal
deriving DecidableEq

namespace Relation

def symbol : Relation → Text
  | .less => Text.ofString "<"
  | .lessEqual => Text.ofString "<="
  | .greater => Text.ofString ">"
  | .greaterEqual => Text.ofString ">="
  | .equal => Text.ofString "=="
  | .unequal => Text.ofString "!="

/-- Whether the relation is one of order, which booleans do not have. -/
def isOrder : Relation → Bool
  | .equal | .unequal => false
  | _ => true

/-- Whether a relation of order admits an outcome of a comparison. -/
def admits : Relation → Ordering → Bool
  | .less, o => o.isLT
  | .lessEqual, o => o.isLE
  | .greater, o => o.isGT
  | .greaterEqual, o => o.isGE
  | .equal, o => o.isEq
  | .unequal, o => o.isNe

/-- Whether two values stand in the relation; a fault if they are incomparable. -/
def holds (r : Relation) (a b : Value) : Except OperationFault Bool :=
  match r with
  | .equal => .ok (a.same b)
  | .unequal => .ok (!a.same b)
  | order =>
    match a.compare b with
    | .incomparable left right => .error (.clash (.order order.symbol left right))
    | .unordered => .ok false
    | .ordered o => .ok (order.admits o)

/-- Whether all neighbours satisfy a test that may have no answer. The first pair that fails or
has no answer decides. -/
def neighbours (test : Value → Value → Except OperationFault Bool) :
    List Value → Except OperationFault Bool
  | a :: b :: rest =>
    match test a b with
    | .ok true => neighbours test (b :: rest)
    | answer => answer
  | _ => .ok true

def incomparable (r : Relation) (args : List Value) : Except Error Value := do
  throw (.incomparable r.symbol (← Value.encodeItems args))

def chain (r : Relation) (args : List Value) : Except Error Value :=
  if args.length < 2 then .error (.argumentCount (.comparison r.symbol))
  else if r.isOrder && args.any Value.isBool then r.incomparable args
  else match neighbours r.holds args with
    | .ok answer => .ok (.bool answer)
    | .error fault => (r.incomparable args).mapError (.reporting fault)

end Relation

end JsonLisp
