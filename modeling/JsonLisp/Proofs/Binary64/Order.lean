import JsonLisp.Proofs.Binary64.Rounding
import JsonLisp.Value.Equality
import Mathlib.Data.Rat.Cast.Order
import Mathlib.Order.WithBot

/-!
# Numbers as points of a line

A number other than not-a-number stands at a point of the rational line with its two ends. Numbers
are compared by their points, integers and floating point numbers alike.

## Main definitions

* `Number.point?`: the exact value of a number.

## Main results

* `Number.compare?_eq`: the order of two numbers is that of their points.
-/

namespace JsonLisp

/-- The rational numbers with an end below and an end above. -/
abbrev Point := WithBot (WithTop ℚ)

namespace Point

def ofRat (q : ℚ) : Point := ((q : WithTop ℚ) : WithBot (WithTop ℚ))

theorem strictMono_ofRat : StrictMono ofRat :=
  WithBot.coe_strictMono.comp WithTop.coe_strictMono

/-- The end below or the end above. -/
def ofEnd (negative : Bool) : Point := if negative then ⊥ else ⊤

@[simp] theorem swap_compare (p q : Point) : (compare p q).swap = compare q p :=
  Std.OrientedOrd.eq_swap.symm

theorem compare_ofRat (p q : ℚ) : compare (ofRat p) (ofRat q) = cmp p q := by
  rw [← cmp_eq_compare, strictMono_ofRat.cmp_map_eq]

theorem compare_ofEnd (s t : Bool) :
    compare (ofEnd s) (ofEnd t) = if s = t then .eq else if s then .lt else .gt := by
  cases s <;> cases t <;> rfl

theorem compare_ofEnd_ofRat (s : Bool) (q : ℚ) :
    compare (ofEnd s) (ofRat q) = if s then .lt else .gt := by
  cases s with
  | true => exact compare_lt_iff_lt.2 (WithBot.bot_lt_coe _)
  | false => exact compare_gt_iff_gt.2 (WithBot.coe_lt_coe.2 (WithTop.coe_lt_top q))

theorem compare_ofRat_ofEnd (q : ℚ) (t : Bool) :
    compare (ofRat q) (ofEnd t) = if t then .gt else .lt := by
  cases t with
  | true => exact compare_gt_iff_gt.2 (WithBot.bot_lt_coe _)
  | false => exact compare_lt_iff_lt.2 (WithBot.coe_lt_coe.2 (WithTop.coe_lt_top q))

end Point

namespace Finite64

def value (x : Finite64) : ℚ := if x.negative then -x.magnitude else x.magnitude

theorem units_mul (x : Finite64) : (x.units x.exponent : ℚ) * 2 ^ x.exponent = x.value := by
  unfold units value magnitude
  split <;> simp

end Finite64

namespace Binary64

def point? : Binary64 → Option Point
  | .nan _ => none
  | .infinity negative => some (.ofEnd negative)
  | .finite x => some (.ofRat x.value)

/-- The multiples are taken at the least of the two exponents, which changes neither number. -/
theorem compareScaled_eq (a e b f : Int) :
    compareScaled a e b f = compare (Point.ofRat (a * 2 ^ e)) (Point.ofRat (b * 2 ^ f)) := by
  have rescale : ∀ (n d : Int), min e f ≤ d →
      (n : ℚ) * 2 ^ d = ((n * Nat.pow 2 (d - min e f).toNat : Int) : ℚ) * 2 ^ min e f := by
    intro n d hd
    have hsplit : d = (d - min e f).toNat + min e f := by omega
    conv_lhs => rw [hsplit, zpow_add₀ two_ne_zero, zpow_natCast]
    simp only [Nat.pow_eq]
    push_cast
    ring
  rw [Point.compare_ofRat, rescale a e (min_le_left e f), rescale b f (min_le_right e f),
    cmp_mul_pos_right (by positivity), Int.cast_strictMono.cmp_map_eq, cmp_eq_compare]
  rfl

theorem compare?_eq (x y : Binary64) :
    x.compare? y = x.point?.bind fun p => y.point?.map (compare p) := by
  cases x with
  | nan => rfl
  | infinity s =>
    cases y with
    | nan => rfl
    | infinity t => simp [compare?, point?, Point.compare_ofEnd]
    | finite y => simp [compare?, point?, Point.compare_ofEnd_ofRat]
  | finite x =>
    cases y with
    | nan => rfl
    | infinity t => simp [compare?, point?, Point.compare_ofRat_ofEnd]
    | finite y => simp [compare?, point?, compareScaled_eq, Finite64.units_mul]

theorem compareInt?_eq (n : Int) (y : Binary64) :
    compareInt? n y = y.point?.map (compare (.ofRat n)) := by
  cases y with
  | nan => rfl
  | infinity t => simp [compareInt?, point?, Point.compare_ofRat_ofEnd]
  | finite y => simp [compareInt?, point?, compareScaled_eq, Finite64.units_mul]

end Binary64

namespace Number

/-- The exact value of a number; not-a-number has none. -/
def point? : Number → Option Point
  | .int n => some (.ofRat n)
  | .float x => x.point?

theorem compare?_eq (m n : Number) :
    m.compare? n = m.point?.bind fun p => n.point?.map (compare p) := by
  cases m with
  | int m =>
    cases n with
    | int n =>
      have hcast : compare (Point.ofRat m) (Point.ofRat n) = compare m n := by
        rw [Point.compare_ofRat, Int.cast_strictMono.cmp_map_eq, cmp_eq_compare]
      simp [compare?, point?, hcast]
    | float y => exact Binary64.compareInt?_eq m y
  | float x =>
    cases n with
    | int n => cases hx : x.point? <;> simp [compare?, point?, Binary64.compareInt?_eq, hx]
    | float y => exact Binary64.compare?_eq x y

theorem compare?_swap (m n : Number) : n.compare? m = (m.compare? n).map Ordering.swap := by
  rw [compare?_eq, compare?_eq]
  cases m.point? <;> cases n.point? <;> simp

/-- Numbers are equal when they stand at the same point. -/
theorem compare?_eq_eq_iff (m n : Number) :
    m.compare? n = some .eq ↔ m.point?.isSome ∧ m.point? = n.point? := by
  rw [compare?_eq]
  cases m.point? <;> cases n.point? <;> simp

end Number

end JsonLisp
