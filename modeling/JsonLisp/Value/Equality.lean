import JsonLisp.Binary64.Arithmetic
import JsonLisp.Value.Basic

/-!
# Equality of values

Numbers are equal when their exact values are, lists item by item, maps when they have the same
keys with equal values, closures when they are the same closure and references to primitives when
they name the same one.

Two equalities differ in the booleans and in not-a-number. For `Value.same`, the equality of the
language, a boolean equals no number and not-a-number equals nothing. For `Value.alike`, by which
the order of lists looks for the first difference, the booleans are the numbers zero and one, and
not-a-number equals itself.
-/

namespace JsonLisp

inductive Number where
  | int (n : Int)
  | float (x : Binary64)

/-- The order of the exact values; there is none with not-a-number. -/
def Number.compare? : Number → Number → Option Ordering
  | .int m, .int n => some (compare m n)
  | .int m, .float y => Binary64.compareInt? m y
  | .float x, .int n => (Binary64.compareInt? n x).map Ordering.swap
  | .float x, .float y => Binary64.compare? x y

namespace Value

def number? : Value → Option Number
  | .int n => some (.int n)
  | .float x => some (.float x)
  | _ => none

/-- The number of a value when the booleans count as zero and one. -/
def numberOrBool? : Value → Option Number
  | .bool b => some (.int (if b then 1 else 0))
  | v => v.number?

/-- Equality of values that are neither two lists nor two maps. -/
def equalAtoms (numeric : Value → Option Number) (a b : Value) : Bool :=
  match numeric a, numeric b with
  | some m, some n => m.compare? n == some .eq
  | some _, none => false
  | none, some _ => false
  | none, none =>
    match a, b with
    | .null, .null => true
    | .bool p, .bool q => p == q
    | .text s, .text t => s == t
    | .closure i _ _, .closure j _ _ => i == j
    | .builtin s, .builtin t => s == t
    | _, _ => false

def hasKeysOf (entries others : List (Text × Value)) : Bool :=
  others.all fun e => entries.any fun f => f.1 == e.1

def alikeAtoms : Value → Value → Bool
  | .float (.nan p), .float (.nan q) => p == q
  | a, b => equalAtoms numberOrBool? a b

mutual

/-- Equality by an equality of values that are neither two lists nor two maps. -/
def equalBy (atoms : Value → Value → Bool) : Value → Value → Bool
  | .list xs, .list ys => itemsEqualBy atoms xs ys
  | .map es, .map fs => hasKeysOf es fs && entriesEqualBy atoms es fs
  | a, b => atoms a b

def itemsEqualBy (atoms : Value → Value → Bool) : List Value → List Value → Bool
  | [], [] => true
  | x :: xs, y :: ys => equalBy atoms x y && itemsEqualBy atoms xs ys
  | _, _ => false

/-- Whether each entry has an equal one under its key in `others`. -/
def entriesEqualBy (atoms : Value → Value → Bool) :
    List (Text × Value) → List (Text × Value) → Bool
  | [], _ => true
  | (key, x) :: rest, others =>
    (match valueUnder? key others with
      | some y => equalBy atoms x y
      | none => false) && entriesEqualBy atoms rest others

end

/-- The equality of the language. -/
def same (a b : Value) : Bool := equalBy (equalAtoms number?) a b

/-- Equality that takes the booleans for numbers and not-a-number for equal to itself. -/
def alike (a b : Value) : Bool := equalBy alikeAtoms a b

end Value

end JsonLisp
