import JsonLisp.Value.Display
import JsonLisp.Value.Equality

/-!
# Arithmetic primitives

The four operators fold their arguments from the left. Integers are exact and meet floating point
numbers as the nearest floating point number; a quotient of integers is rounded once. Sums also
join texts and lists, and products repeat them.

## Main definitions

* `Operator.combine`: one step on two operands.
* `Operator.fold`: the operator on a list of arguments.
-/

namespace JsonLisp

inductive Operator where
  | add
  | sub
  | mul
  | div
deriving DecidableEq

/-- The floating point number nearest to a number; an integer can be out of range. -/
def Number.toFloat : Number → Except OperationFault Binary64
  | .float x => .ok x
  | .int n =>
    let x := Binary64.ofInt n
    if x.isFinite then .ok x else .error (.outOfRange .operand)

namespace Operator

def symbol : Operator → Text
  | .add => Text.ofString "+"
  | .sub => Text.ofString "-"
  | .mul => Text.ofString "*"
  | .div => Text.ofString "/"

/-- The quotient of two integers; only the divisor decides the sign of zero. -/
def divideInts (m n : Int) : Except OperationFault Value :=
  if n = 0 then .error (.zeroDivision false)
  else
    let q := Binary64.round (decide (m < 0) != decide (n < 0)) m.natAbs n.natAbs
    if q.isFinite then .ok (.float q) else .error (.outOfRange .quotient)

def combineInts (op : Operator) (m n : Int) : Except OperationFault Value :=
  match op with
  | .add => .ok (.int (m + n))
  | .sub => .ok (.int (m - n))
  | .mul => .ok (.int (m * n))
  | .div => divideInts m n

/-- Infinite results are no fault of a single step. -/
def combineFloats (op : Operator) (x y : Binary64) : Except OperationFault Value :=
  match op with
  | .add => .ok (.float (x.add y))
  | .sub => .ok (.float (x.sub y))
  | .mul => .ok (.float (x.mul y))
  | .div => if y.isZero then .error (.zeroDivision true) else .ok (.float (x.div y))

def combineNumbers (op : Operator) : Number → Number → Except OperationFault Value
  | .int m, .int n => op.combineInts m n
  | m, n => do op.combineFloats (← m.toFloat) (← n.toFloat)

/-- The longest text or list that can be addressed. -/
def maxLength : Nat := Nat.pow 2 63 - 1

/-- A list of `count` copies; a count below one gives none. -/
def copies {α : Type} (items : List α) (count : Int) : Except OperationFault (List α) :=
  if count < -(Nat.pow 2 63 : Int) ∨ (maxLength : Int) < count then .error (.outOfRange .count)
  else if items.isEmpty then .ok []
  else if maxLength < items.length * count.toNat then .error (.outOfRange .length)
  else .ok (List.replicate count.toNat items).flatten

def isSequence : Value → Bool
  | .text _ | .list _ => true
  | _ => false

/-- Why two operands do not go together. A text or a list, where there is one, decides what the
operation would have been. -/
def clash (op : Operator) (a b : Value) : Clash :=
  match op with
  | .add =>
    if isSequence a then .joining a.typeName b.typeName
    else .operands op.symbol a.typeName b.typeName
  | .mul =>
    if isSequence a then .repetition b.typeName
    else if isSequence b then .repetition a.typeName
    else .operands op.symbol a.typeName b.typeName
  | .sub | .div => .operands op.symbol a.typeName b.typeName

def combine (op : Operator) (a b : Value) : Except OperationFault Value :=
  match a.number?, b.number? with
  | some m, some n => op.combineNumbers m n
  | _, _ =>
    match op, a, b with
    | .add, .text s, .text t => .ok (.text (s ++ t))
    | .add, .list xs, .list ys => .ok (.list (xs ++ ys))
    | .mul, .text s, .int n | .mul, .int n, .text s => return .text (← copies s n)
    | .mul, .list xs, .int n | .mul, .int n, .list xs => return .list (← copies xs n)
    | _, _, _ => .error (.clash (op.clash a b))

def unsupported (op : Operator) (args : List Value) : Except Error Value := do
  throw (.unsupportedOperands op.symbol (← Value.encodeItems args))

/-- The error that reports a fault. -/
def errorOf (op : Operator) (args : List Value) (fault : OperationFault) : Except Error Value :=
  Except.mapError (.reporting fault) <|
    match fault with
    | .clash _ => op.unsupported args
    | .zeroDivision _ => .error .divisionByZero
    | .outOfRange _ => .error (.resultOutOfRange op.symbol)

def isNotFinite : Value → Bool
  | .float x => !x.isFinite
  | _ => false

/-- Without arguments the result is `null`, and a single argument is returned as it is. Booleans
are no operands, and only the last result has to be finite. -/
def fold (op : Operator) (args : List Value) : Except Error Value :=
  match args with
  | [] => .ok .null
  | first :: rest =>
    if args.any Value.isBool then op.unsupported args
    else match rest.foldlM op.combine first with
      | .error fault => op.errorOf args fault
      | .ok result =>
        if isNotFinite result then .error (.resultOutOfRange op.symbol) else .ok result

end Operator

end JsonLisp
