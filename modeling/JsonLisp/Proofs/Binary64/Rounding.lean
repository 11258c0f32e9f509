import JsonLisp.Binary64.Shortest
import Mathlib.Algebra.Order.Field.Power
import Mathlib.Data.Rat.Cast.Order
import Mathlib.Tactic.FieldSimp
import Mathlib.Tactic.Linarith
import Mathlib.Tactic.NormNum
import Mathlib.Tactic.Positivity
import Mathlib.Tactic.Ring

/-!
# What rounds to a number

The quotients that round to a finite number form an interval around it, whose ends belong to it when
the significand is even.

## Main definitions

* `Finite64.Covers`: the interval of a number.
* `Finite64.round_eq`: rounding a quotient in the interval gives the number.
-/

namespace JsonLisp

namespace Binary64

/-! ### Quotients -/

variable {num den : Nat}

theorem scaled_den_pos (num : Nat) (hden : 0 < den) (e : Int) : 0 < (scaled num den e).2 := by
  unfold scaled
  split
  · exact Nat.mul_pos hden (Nat.pow_pos (by decide))
  · exact hden

theorem scaled_ratio (num : Nat) (hden : 0 < den) (e : Int) :
    ((scaled num den e).1 : ℚ) / (scaled num den e).2 = num / den / 2 ^ e := by
  have hden' : (den : ℚ) ≠ 0 := by positivity
  unfold scaled
  split
  · rename_i he
    obtain ⟨n, rfl⟩ := Int.eq_ofNat_of_zero_le he
    push_cast
    simp only [Int.toNat_natCast, Nat.pow_eq, zpow_natCast]
    push_cast
    field_simp
  · rename_i he
    obtain ⟨n, hn⟩ := Int.eq_ofNat_of_zero_le (by omega : 0 ≤ -e)
    have he' : e = -(n : Int) := by omega
    subst he'
    simp only [neg_neg, Int.toNat_natCast, Nat.pow_eq, zpow_neg, zpow_natCast]
    push_cast
    field_simp

theorem two_zpow_log2_le (h : num ≠ 0) : (2 : ℚ) ^ (num.log2 : Int) ≤ num := by
  rw [zpow_natCast]
  exact_mod_cast Nat.log2_self_le h

theorem lt_two_zpow_log2 (num : Nat) : (num : ℚ) < 2 ^ (num.log2 + 1 : Int) := by
  have h : num < 2 ^ (num.log2 + 1) := Nat.lt_log2_self
  have hq : (num : ℚ) < 2 ^ (num.log2 + 1) := by exact_mod_cast h
  exact_mod_cast hq

/-- A quotient lies within one power of two of what the sizes of its parts say. -/
theorem ratio_bracket (hnum : num ≠ 0) (hden : den ≠ 0) :
    (2 : ℚ) ^ ((num.log2 : Int) - den.log2 - 1) ≤ num / den ∧
      (num : ℚ) / den < 2 ^ ((num.log2 : Int) - den.log2 + 1) := by
  have hnum_low := two_zpow_log2_le hnum
  have hnum_high := lt_two_zpow_log2 num
  have hden_low := two_zpow_log2_le hden
  have hden_high := lt_two_zpow_log2 den
  have hpos : (0 : ℚ) < den := by positivity
  constructor
  · rw [le_div_iff₀ hpos]
    calc (2 : ℚ) ^ ((num.log2 : Int) - den.log2 - 1) * den
        ≤ 2 ^ ((num.log2 : Int) - den.log2 - 1) * 2 ^ (den.log2 + 1 : Int) := by gcongr
      _ = 2 ^ (num.log2 : Int) := by
        rw [← zpow_add₀ two_ne_zero]
        congr 1
        ring
      _ ≤ num := hnum_low
  · rw [div_lt_iff₀ hpos]
    calc (num : ℚ) < 2 ^ (num.log2 + 1 : Int) := hnum_high
      _ = 2 ^ ((num.log2 : Int) - den.log2 + 1) * 2 ^ (den.log2 : Int) := by
        rw [← zpow_add₀ two_ne_zero]
        congr 1
        ring
      _ ≤ 2 ^ ((num.log2 : Int) - den.log2 + 1) * den := by gcongr

/-- The power of two below a quotient. -/
theorem floorLog2_spec (hnum : num ≠ 0) (hden : den ≠ 0) :
    (2 : ℚ) ^ floorLog2 num den ≤ num / den ∧
      (num : ℚ) / den < 2 ^ (floorLog2 num den + 1) := by
  obtain ⟨hlow, hhigh⟩ := ratio_bracket hnum hden
  have hden' := Nat.pos_of_ne_zero hden
  have hratio := scaled_ratio num hden' ((num.log2 : Int) - den.log2)
  have hd : (0 : ℚ) < (scaled num den ((num.log2 : Int) - den.log2)).2 := by
    exact_mod_cast scaled_den_pos _ hden' _
  have hpow : (0 : ℚ) < 2 ^ ((num.log2 : Int) - den.log2) := by positivity
  have hiff : (scaled num den ((num.log2 : Int) - den.log2)).2 ≤
      (scaled num den ((num.log2 : Int) - den.log2)).1 ↔
      (2 : ℚ) ^ ((num.log2 : Int) - den.log2) ≤ num / den := by
    rw [← one_le_div₀ hpow, ← hratio, one_le_div₀ hd, Nat.cast_le]
  unfold floorLog2
  dsimp only
  split
  · rename_i h
    exact ⟨hiff.1 h, hhigh⟩
  · rename_i h
    rw [sub_add_cancel]
    exact ⟨hlow, not_le.1 fun hle => h (hiff.2 hle)⟩

/-! ### The nearest natural number -/

/-- The nearest natural number is one of the two next to the quotient. -/
theorem nearestEven_eq_or (num den : Nat) :
    nearestEven num den = num / den ∨ nearestEven num den = num / den + 1 := by
  unfold nearestEven
  dsimp only
  split
  · exact .inl rfl
  · split
    · exact .inr rfl
    · omega

/-- The natural number within half a unit of a quotient; halfway it has to be even. -/
theorem nearestEven_eq {m : Nat} (hden : 0 < den) (hlow : 2 * m * den ≤ 2 * num + den)
    (hhigh : 2 * num ≤ (2 * m + 1) * den)
    (hodd : m % 2 = 1 → 2 * m * den < 2 * num + den ∧ 2 * num < (2 * m + 1) * den) :
    nearestEven num den = m := by
  have hsplit : den * (num / den) + num % den = num := Nat.div_add_mod num den
  have hrest : num % den < den := Nat.mod_lt num hden
  unfold nearestEven
  dsimp only
  generalize num / den = q at hsplit
  generalize num % den = r at hsplit hrest
  have hm : m = q ∨ m = q + 1 := by
    have hle : q ≤ m := by
      by_contra h
      obtain ⟨k, rfl⟩ := Nat.exists_eq_add_of_lt (not_le.1 h)
      nlinarith
    have hge : m ≤ q + 1 := by
      by_contra h
      obtain ⟨k, rfl⟩ := Nat.exists_eq_add_of_lt (not_le.1 h)
      nlinarith
    omega
  obtain rfl | rfl := hm
  · have hhalf : 2 * r ≤ den := by nlinarith
    have hstrict : m % 2 = 1 → 2 * r < den := fun h => by nlinarith [(hodd h).2]
    split
    · rfl
    · split
      · omega
      · omega
  · have hhalf : den ≤ 2 * r := by nlinarith
    have hstrict : (q + 1) % 2 = 1 → den < 2 * r := fun h => by nlinarith [(hodd h).1]
    split
    · omega
    · split
      · rfl
      · omega

theorem nearestEven_eq_of_ratio {m : Nat} (hden : 0 < den)
    (hlow : (2 * m - 1 : ℚ) ≤ 2 * (num / den)) (hhigh : 2 * ((num : ℚ) / den) ≤ 2 * m + 1)
    (hodd : m % 2 = 1 → (2 * m - 1 : ℚ) < 2 * (num / den) ∧ 2 * ((num : ℚ) / den) < 2 * m + 1) :
    nearestEven num den = m := by
  have hpos : (0 : ℚ) < den := by exact_mod_cast hden
  have hnum : (num : ℚ) = num / den * den := by field_simp
  generalize (num : ℚ) / den = r at hlow hhigh hodd hnum
  apply nearestEven_eq hden
  · have h : (2 * m * den : ℚ) ≤ 2 * num + den := by rw [hnum]; nlinarith
    exact_mod_cast h
  · have h : (2 * num : ℚ) ≤ (2 * m + 1) * den := by rw [hnum]; nlinarith
    exact_mod_cast h
  · intro hm
    obtain ⟨hlow, hhigh⟩ := hodd hm
    have h : (2 * m * den : ℚ) < 2 * num + den := by rw [hnum]; nlinarith
    have h' : (2 * num : ℚ) < (2 * m + 1) * den := by rw [hnum]; nlinarith
    exact ⟨by exact_mod_cast h, by exact_mod_cast h'⟩

end Binary64

namespace Finite64

/-! ### The interval of a number -/

/-- The magnitude. -/
def magnitude (x : Finite64) : ℚ := x.significand * 2 ^ x.exponent

/-- A quarter of the last place. -/
def quarter (x : Finite64) : ℚ := 2 ^ (x.exponent - 2)

/-- The magnitudes that round to that of `x`. -/
def Covers (x : Finite64) (q : ℚ) : Prop :=
  (4 * x.significand - x.lowerQuarters) * x.quarter ≤ q ∧
  q ≤ (4 * x.significand + 2) * x.quarter ∧
  (x.significand % 2 = 1 →
    (4 * x.significand - x.lowerQuarters) * x.quarter < q ∧
    q < (4 * x.significand + 2) * x.quarter)

variable {x : Finite64}

theorem quarter_pos (x : Finite64) : 0 < x.quarter := by
  unfold quarter
  positivity

theorem four_mul_quarter (x : Finite64) : 4 * x.quarter = 2 ^ x.exponent := by
  unfold quarter
  rw [zpow_sub₀ two_ne_zero]
  norm_num
  ring

theorem ofParts_eq (x : Finite64) :
    Binary64.ofParts x.negative x.significand x.exponent = .finite x := by
  unfold Binary64.ofParts
  rw [dif_pos ⟨x.significand_lt, x.exponent_ge, x.exponent_le, x.canonical⟩]

/-- What is covered in units of the last place. -/
theorem Covers.units {q : ℚ} (h : x.Covers q) :
    (2 * x.significand - 1 : ℚ) ≤ 2 * (q / 2 ^ x.exponent) ∧
    2 * (q / 2 ^ x.exponent) ≤ 2 * x.significand + 1 ∧
    (x.significand % 2 = 1 → (2 * x.significand - 1 : ℚ) < 2 * (q / 2 ^ x.exponent) ∧
      2 * (q / 2 ^ x.exponent) < 2 * x.significand + 1) := by
  obtain ⟨hlow, hhigh, hodd⟩ := h
  have hquarter := x.quarter_pos
  have hq : q = q / 2 ^ x.exponent * (4 * x.quarter) := by
    rw [four_mul_quarter]
    field_simp
  have hlower : (x.lowerQuarters : ℚ) ≤ 2 := by
    unfold lowerQuarters
    split <;> norm_num
  generalize q / 2 ^ x.exponent = r at hq
  subst hq
  refine ⟨?_, ?_, fun h => ⟨?_, ?_⟩⟩
  · nlinarith
  · nlinarith
  · nlinarith [(hodd h).1]
  · nlinarith [(hodd h).2]

/-- Rounding a covered quotient with the exponent of the number. -/
theorem nearestEven_covered {num den : Nat} (hden : 0 < den) (h : x.Covers (num / den)) :
    Binary64.nearestEven (Binary64.scaled num den x.exponent).1
      (Binary64.scaled num den x.exponent).2 = x.significand := by
  obtain ⟨hlow, hhigh, hodd⟩ := h.units
  rw [← Binary64.scaled_ratio _ hden] at hlow hhigh hodd
  exact Binary64.nearestEven_eq_of_ratio (Binary64.scaled_den_pos _ hden _) hlow hhigh hodd

/-- A covered quotient lies below the next power of two. -/
theorem Covers.lt {q : ℚ} (h : x.Covers q) : q < 2 ^ (x.exponent + 53) := by
  obtain ⟨-, hhigh, -⟩ := h.units
  have hpos : (0 : ℚ) < 2 ^ x.exponent := by positivity
  have hm : (x.significand : ℚ) + 1 ≤ 2 ^ 53 := by exact_mod_cast x.significand_lt
  have hunits : q / 2 ^ x.exponent < 2 ^ 53 := by linarith
  rw [div_lt_iff₀ hpos] at hunits
  calc q < 2 ^ 53 * 2 ^ x.exponent := hunits
    _ = 2 ^ (x.exponent + 53) := by
      rw [zpow_add₀ two_ne_zero, mul_comm]
      norm_num

/-- A covered quotient below the binade of the number is next to a power of two. -/
theorem Covers.significand_eq {q : ℚ} (h : x.Covers q) (hexponent : x.exponent ≠ -1074)
    (hq : q < 2 ^ (x.exponent + 52)) :
    x.significand = Nat.pow 2 52 ∧ (2 ^ 53 - 1 / 2 : ℚ) * 2 ^ (x.exponent - 1) ≤ q := by
  have hpos : (0 : ℚ) < 2 ^ x.exponent := by positivity
  have hnormal : Nat.pow 2 52 ≤ x.significand := x.canonical.resolve_right hexponent
  have hleast : x.significand = Nat.pow 2 52 := by
    refine le_antisymm (not_lt.1 fun hlt => ?_) hnormal
    have hm : (2 ^ 52 : ℚ) + 1 ≤ x.significand := by exact_mod_cast hlt
    obtain ⟨hlow, -, -⟩ := h.units
    have hunits : (2 ^ 52 : ℚ) ≤ q / 2 ^ x.exponent := by linarith
    rw [le_div_iff₀ hpos] at hunits
    rw [zpow_add₀ two_ne_zero, mul_comm] at hq
    norm_num at hq hunits
    linarith
  refine ⟨hleast, ?_⟩
  have hlower : x.lowerQuarters = 1 := by
    unfold lowerQuarters
    rw [if_pos ⟨hleast, hexponent⟩]
  have hsignificand : (x.significand : ℚ) = 2 ^ 52 := by
    rw [hleast]
    norm_num
  have hhalf : (2 : ℚ) ^ (x.exponent - 1) = 2 * x.quarter := by
    unfold quarter
    rw [zpow_sub₀ two_ne_zero, zpow_sub₀ two_ne_zero]
    norm_num
    ring
  have hlow := h.1
  rw [hlower, hsignificand] at hlow
  rw [hhalf]
  norm_num at hlow ⊢
  linarith

theorem Covers.pos {q : ℚ} (hx : x.significand ≠ 0) (h : x.Covers q) : 0 < q := by
  have hm : (1 : ℚ) ≤ x.significand := by exact_mod_cast Nat.pos_of_ne_zero hx
  have hlower : (x.lowerQuarters : ℚ) ≤ 2 := by
    unfold lowerQuarters
    split <;> norm_num
  have hquarter := x.quarter_pos
  have hlow := h.1
  nlinarith

/-- On the grid of the lower binade a quotient that close to its end is rounded up to it. -/
theorem nearestEven_carry {num den : Nat} (hden : 0 < den)
    (hlow : (2 ^ 53 - 1 / 2 : ℚ) * 2 ^ (x.exponent - 1) ≤ num / den)
    (hhigh : (num : ℚ) / den < 2 ^ (x.exponent + 52)) :
    Binary64.nearestEven (Binary64.scaled num den (x.exponent - 1)).1
      (Binary64.scaled num den (x.exponent - 1)).2 = Nat.pow 2 53 := by
  have hpos : (0 : ℚ) < 2 ^ (x.exponent - 1) := by positivity
  have hend : (2 : ℚ) ^ (x.exponent + 52) = 2 ^ 53 * 2 ^ (x.exponent - 1) := by
    rw [show x.exponent + 52 = 53 + (x.exponent - 1) by ring, zpow_add₀ two_ne_zero]
    norm_num
  rw [hend, ← div_lt_iff₀ hpos] at hhigh
  rw [← le_div_iff₀ hpos] at hlow
  rw [← Binary64.scaled_ratio _ hden] at hlow hhigh
  refine Binary64.nearestEven_eq_of_ratio (Binary64.scaled_den_pos _ hden _) ?_ ?_ fun hodd => ?_
  · norm_num at hlow ⊢
    linarith
  · norm_num at hhigh ⊢
    linarith
  · exact absurd hodd (by decide)

/-- A covered quotient rounds to the number. Just below a power of two the finer grid of the lower
binade is used, and its end is the number itself. -/
theorem round_eq (hx : x.significand ≠ 0) {num den : Nat} (hden : 0 < den)
    (h : x.Covers (num / den)) : Binary64.round x.negative num den = .finite x := by
  have hnum : num ≠ 0 := by
    rintro rfl
    have hpos := h.pos hx
    simp at hpos
  obtain ⟨hfloor, hceil⟩ := Binary64.floorLog2_spec hnum hden.ne'
  have hbelow : Binary64.floorLog2 num den < x.exponent + 53 :=
    (zpow_lt_zpow_iff_right₀ one_lt_two).1 (hfloor.trans_lt h.lt)
  have hge := x.exponent_ge
  have hlt : x.significand < Nat.pow 2 53 := x.significand_lt
  unfold Binary64.round
  rw [if_neg hnum]
  dsimp only
  by_cases hexponent : max (Binary64.floorLog2 num den - 52) (-1074) = x.exponent
  · rw [hexponent, nearestEven_covered hden h, if_neg (by omega), ofParts_eq]
  · have hne : x.exponent ≠ -1074 := by omega
    have hq : (num : ℚ) / den < 2 ^ (x.exponent + 52) := by
      refine not_le.1 fun hle => hexponent ?_
      have := (zpow_lt_zpow_iff_right₀ one_lt_two).1 (hle.trans_lt hceil)
      omega
    obtain ⟨hleast, hclose⟩ := h.significand_eq hne hq
    have hbinade : (2 : ℚ) ^ (x.exponent + 51) ≤ num / den := by
      refine le_trans ?_ hclose
      have hpos : (0 : ℚ) < 2 ^ (x.exponent - 1) := by positivity
      calc (2 : ℚ) ^ (x.exponent + 51) = 2 ^ 52 * 2 ^ (x.exponent - 1) := by
            rw [show x.exponent + 51 = 52 + (x.exponent - 1) by ring, zpow_add₀ two_ne_zero]
            norm_num
        _ ≤ (2 ^ 53 - 1 / 2) * 2 ^ (x.exponent - 1) := by nlinarith
    have hlow := (zpow_lt_zpow_iff_right₀ one_lt_two).1 (hbinade.trans_lt hceil)
    have hhigh := (zpow_lt_zpow_iff_right₀ one_lt_two).1 (hfloor.trans_lt hq)
    have hfine : max (Binary64.floorLog2 num den - 52) (-1074) = x.exponent - 1 := by omega
    rw [hfine, nearestEven_carry hden hclose hq, if_pos rfl, sub_add_cancel, ← hleast, ofParts_eq]

end Finite64

end JsonLisp
