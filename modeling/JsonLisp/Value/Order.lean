import JsonLisp.Value.Equality

/-!
# Order of values

Numbers are ordered by their exact values, texts by code points, lists by their first difference.
Booleans inside lists are ordered as zero and one. All other pairs are incomparable.
-/

namespace JsonLisp

/-- The outcome of comparing two values. Not-a-number is comparable with numbers but stands in no
order to them. Incomparable values are given by the names of their types. -/
inductive Comparison where
  | incomparable (left right : Text)
  | unordered
  | ordered (o : Ordering)
deriving DecidableEq

namespace Value

def compareAtoms (a b : Value) : Comparison :=
  match a.numberOrBool?, b.numberOrBool? with
  | some m, some n =>
    match m.compare? n with
    | some o => .ordered o
    | none => .unordered
  | _, _ =>
    match a, b with
    | .text s, .text t => .ordered (List.compareLex compare s t)
    | _, _ => .incomparable a.typeName b.typeName

mutual

def compare : Value → Value → Comparison
  | .list xs, .list ys => compareItems xs ys
  | a, b => compareAtoms a b

/-- Items that are alike are passed over; the first others decide, or else the lengths. -/
def compareItems : List Value → List Value → Comparison
  | [], [] => .ordered .eq
  | [], _ :: _ => .ordered .lt
  | _ :: _, [] => .ordered .gt
  | x :: xs, y :: ys => if alike x y then compareItems xs ys else compare x y

end

end Value

end JsonLisp
