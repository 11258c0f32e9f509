import JsonLisp.Binary64.Basic
import JsonLisp.Text.Basic

/-!
# Shortest decimal text

A finite number is written with the fewest decimal digits that read back as the same number; of
several such, with those nearest to its value.

## Main definitions

* `Finite64.shortest`: the digits and their power of ten.
* `Finite64.toText`: the text in the layout `FloatLayout.standard`.
-/

namespace JsonLisp

/-- The number `digits * 10 ^ exponent`. -/
structure Decimal where
  digits : Nat
  exponent : Int
deriving DecidableEq

namespace Finite64

/-- The distance to the lower end of the rounding interval, in quarters of the last place. Below a
power of two the neighbour is half as far away. -/
def lowerQuarters (x : Finite64) : Nat :=
  if x.significand = Nat.pow 2 52 ∧ x.exponent ≠ -1074 then 1 else 2

/-- Whether `digits * den` lies in the interval of the values that round to `x`, which is given in
quarters of its last place, each of the size `num / den`. The ends belong to it exactly when the
significand is even. -/
def readsAs (x : Finite64) (num den digits : Nat) : Bool :=
  let v := digits * den
  let low := (4 * x.significand - x.lowerQuarters) * num
  let high := (4 * x.significand + 2) * num
  if x.significand % 2 = 0 then low ≤ v && v ≤ high else low < v && v < high

/-- The multiples of `10 ^ k` next to `x` that read back as `x`: the nearer one if both do, the
even one at the same distance. -/
def onGrid? (x : Finite64) (k : Int) : Option Nat :=
  let quarter := x.exponent - 2
  let (n, d) := Binary64.scaled 1 1 (-quarter)
  let (num, den) := if 0 ≤ k then (n, d * Nat.pow 10 k.toNat) else (n * Nat.pow 10 (-k).toNat, d)
  let below := 4 * x.significand * num / den
  match x.readsAs num den below, x.readsAs num den (below + 1) with
  | true, true => some (Binary64.nearestEven (4 * x.significand * num) den)
  | true, false => some below
  | false, true => some (below + 1)
  | false, false => none

/-- The first grid with a point that reads back, from `10 ^ k` on through ever finer grids. -/
def searchGrids (x : Finite64) : Nat → Int → Decimal
  | 0, k => ⟨(x.onGrid? k).getD 0, k⟩
  | steps + 1, k =>
    match x.onGrid? k with
    | some digits => ⟨digits, k⟩
    | none => searchGrids x steps (k - 1)

/-- A power of ten not below `x`, at most two places above it. -/
def coarsestGrid (x : Finite64) : Int :=
  ((x.significand.log2 : Int) + x.exponent + 1) * 30103 / 100000 + 1

/-- Seventeen significant digits always suffice. -/
def shortest (x : Finite64) : Decimal := searchGrids x 20 x.coarsestGrid

end Finite64

/-- How a decimal number is laid out: the powers of ten of the leading digit that are written
positionally, and the least number of digits of an exponent. -/
structure FloatLayout where
  leastPositional : Int
  greatestPositional : Int
  exponentDigits : Nat

/-- Positional from `0.0001` up to `10 ^ 16`, exponents with a sign and two digits. -/
def FloatLayout.standard : FloatLayout := ⟨-4, 15, 2⟩

namespace FloatLayout

def point : CodePoint := 46

def zeros (n : Nat) : Text := List.replicate n 48

/-- The digits with the point after the first `1 + place` of them. -/
def positional (digits : Text) (place : Int) : Text :=
  if place < 0 then 48 :: point :: zeros (-place - 1).toNat ++ digits
  else
    let whole := place.toNat + 1
    if digits.length ≤ whole then digits ++ zeros (whole - digits.length) ++ [point, 48]
    else digits.take whole ++ point :: digits.drop whole

def scientific (l : FloatLayout) (digits : Text) (place : Int) : Text :=
  let fraction := digits.drop 1
  let power := Text.ofNat place.natAbs
  digits.take 1 ++ (if fraction.isEmpty then [] else point :: fraction) ++
    101 :: (if place < 0 then 45 else 43) :: zeros (l.exponentDigits - power.length) ++ power

def render (l : FloatLayout) (x : Decimal) : Text :=
  let digits := Text.ofNat x.digits
  let place := x.exponent + digits.length - 1
  if l.leastPositional ≤ place ∧ place ≤ l.greatestPositional then positional digits place
  else l.scientific digits place

end FloatLayout

def Finite64.toText (x : Finite64) : Text :=
  let magnitude :=
    if x.isZero then FloatLayout.positional [48] 0 else FloatLayout.standard.render x.shortest
  if x.negative then 45 :: magnitude else magnitude

end JsonLisp
