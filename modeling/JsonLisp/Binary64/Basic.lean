/-!
# Binary floating point of 64 bits

A finite number is a sign, a significand below `2 ^ 53` and an exponent of two, in the one
position that the format allows: a significand below `2 ^ 52` occurs with the least exponent only.

## Main definitions

* `Binary64`: the finite numbers, two infinities and not-a-number with its payload.
* `Binary64.round`: the number nearest to a quotient of natural numbers; a tie goes to the even
  significand and what lies past the largest number becomes infinite.
-/

namespace JsonLisp

/-- The finite number `± significand * 2 ^ exponent`. -/
structure Finite64 where
  negative : Bool
  significand : Nat
  exponent : Int
  significand_lt : significand < Nat.pow 2 53
  exponent_ge : -1074 ≤ exponent
  exponent_le : exponent ≤ 971
  canonical : Nat.pow 2 52 ≤ significand ∨ exponent = -1074
deriving DecidableEq

inductive Binary64 where
  /-- The payload tells one not-a-number from another; no arithmetic depends on it. -/
  | nan (payload : Nat)
  | infinity (negative : Bool)
  | finite (x : Finite64)
deriving DecidableEq

namespace Finite64

def zero (negative : Bool) : Finite64 where
  negative := negative
  significand := 0
  exponent := -1074
  significand_lt := by decide
  exponent_ge := by decide
  exponent_le := by decide
  canonical := .inr rfl

instance : Inhabited Finite64 := ⟨zero false⟩

def isZero (x : Finite64) : Bool := x.significand == 0

def neg (x : Finite64) : Finite64 := { x with negative := !x.negative }

/-- The value in units of `2 ^ e`, for an `e` not above the exponent. -/
def units (x : Finite64) (e : Int) : Int :=
  let magnitude : Int := x.significand * Nat.pow 2 (x.exponent - e).toNat
  if x.negative then -magnitude else magnitude

end Finite64

namespace Binary64

instance : Inhabited Binary64 := ⟨.nan 0⟩

def zero (negative : Bool) : Binary64 := .finite (.zero negative)

def isFinite : Binary64 → Bool
  | .finite _ => true
  | _ => false

/-! ### Rounding -/

/-- A numerator and a denominator of `num / den / 2 ^ e`. -/
def scaled (num den : Nat) (e : Int) : Nat × Nat :=
  if 0 ≤ e then (num, den * Nat.pow 2 e.toNat) else (num * Nat.pow 2 (-e).toNat, den)

/-- The natural number nearest to `num / den`; a half goes to the even neighbour. -/
def nearestEven (num den : Nat) : Nat :=
  let q := num / den
  let r := num % den
  if 2 * r < den then q
  else if den < 2 * r then q + 1
  else q + q % 2

/-- The exponent of the greatest power of two that is not above `num / den`. -/
def floorLog2 (num den : Nat) : Int :=
  let l : Int := num.log2 - den.log2
  let (n, d) := scaled num den l
  if d ≤ n then l else l - 1

/-- A significand that has its exponent; an exponent past the largest makes the number infinite. -/
def ofParts (negative : Bool) (significand : Nat) (exponent : Int) : Binary64 :=
  if h : significand < Nat.pow 2 53 ∧ -1074 ≤ exponent ∧ exponent ≤ 971 ∧
      (Nat.pow 2 52 ≤ significand ∨ exponent = -1074) then
    .finite ⟨negative, significand, exponent, h.1, h.2.1, h.2.2.1, h.2.2.2⟩
  else .infinity negative

/-- The number nearest to `± num / den`, where `den` is not zero. -/
def round (negative : Bool) (num den : Nat) : Binary64 :=
  if num = 0 then zero negative
  else
    let e := max (floorLog2 num den - 52) (-1074)
    let (n, d) := scaled num den e
    let m := nearestEven n d
    if m = Nat.pow 2 53 then ofParts negative (Nat.pow 2 52) (e + 1) else ofParts negative m e

/-- The number nearest to `± m * 2 ^ e`. -/
def roundScaled (negative : Bool) (m : Nat) (e : Int) : Binary64 :=
  if 0 ≤ e then round negative (m * Nat.pow 2 e.toNat) 1
  else round negative m (Nat.pow 2 (-e).toNat)

/-- The number nearest to an integer, which is infinite for an integer out of range. -/
def ofInt (n : Int) : Binary64 := round (n < 0) n.natAbs 1

/-- The number nearest to `± digits * 10 ^ exponent`. The first two bounds only spare the powers
of ten that cannot matter. -/
def ofDecimal (negative : Bool) (digits : Nat) (exponent : Int) : Binary64 :=
  if digits = 0 then zero negative
  else if 400 < exponent then .infinity negative
  else if exponent < -(400 + (digits.log2 : Int)) then zero negative
  else if 0 ≤ exponent then round negative (digits * Nat.pow 10 exponent.toNat) 1
  else round negative digits (Nat.pow 10 (-exponent).toNat)

end Binary64

end JsonLisp
