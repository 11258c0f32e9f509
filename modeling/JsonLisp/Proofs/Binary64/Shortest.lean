import JsonLisp.Proofs.Binary64.Rounding

/-!
# The shortest decimal reads back

The search for the shortest decimal finds one that is covered by the number, so that it rounds to
the number again: the finest grid that is tried is finer than a quarter of the last place.

## Main definitions

* `Decimal.value`: the rational number that a decimal is.
* `Finite64.covers_shortest`, `Finite64.ofDecimal_eq`.
-/

namespace JsonLisp

/-- The number `digits * 10 ^ exponent`. -/
def Decimal.value (d : Decimal) : ℚ := d.digits * 10 ^ d.exponent

namespace Finite64

variable {x : Finite64}

/-! ### Points of a grid -/

/-- The grid point that is tried, with `num / den` for a quarter of the last place in units of the
grid. -/
def gridPoint? (x : Finite64) (num den : Nat) : Option Nat :=
  let below := 4 * x.significand * num / den
  match x.readsAs num den below, x.readsAs num den (below + 1) with
  | true, true => some (Binary64.nearestEven (4 * x.significand * num) den)
  | true, false => some below
  | false, true => some (below + 1)
  | false, false => none

theorem onGrid?_eq (x : Finite64) (k : Int) :
    ∃ num den : Nat, 0 < den ∧ (num : ℚ) / den = x.quarter / 10 ^ k ∧
      x.onGrid? k = x.gridPoint? num den := by
  have hpos := Binary64.scaled_den_pos 1 one_pos (-(x.exponent - 2))
  have hratio := Binary64.scaled_ratio 1 one_pos (-(x.exponent - 2))
  rw [zpow_neg, div_inv_eq_mul, Nat.cast_one, div_one, one_mul] at hratio
  unfold onGrid?
  dsimp only
  generalize Binary64.scaled 1 1 (-(x.exponent - 2)) = unit at hpos hratio
  obtain ⟨n, d⟩ := unit
  dsimp only at hpos hratio
  have hd : (d : ℚ) ≠ 0 := by exact_mod_cast hpos.ne'
  by_cases hk : 0 ≤ k
  · obtain ⟨j, rfl⟩ := Int.eq_ofNat_of_zero_le hk
    refine ⟨n, d * Nat.pow 10 j, Nat.mul_pos hpos (Nat.pow_pos (by decide)), ?_, ?_⟩
    · rw [Finite64.quarter, ← hratio, zpow_natCast, Nat.pow_eq]
      push_cast
      rw [div_div]
    · rw [if_pos hk]
      rfl
  · obtain ⟨j, hj⟩ := Int.eq_ofNat_of_zero_le (by omega : 0 ≤ -k)
    have hk' : k = -(j : Int) := by omega
    refine ⟨n * Nat.pow 10 j, d, hpos, ?_, ?_⟩
    · rw [Finite64.quarter, ← hratio, hk', zpow_neg, zpow_natCast, div_inv_eq_mul, Nat.pow_eq]
      push_cast
      ring
    · rw [if_neg hk, hj]
      rfl

section Grid

variable {num den : Nat} {k : Int} (hden : 0 < den)
  (hratio : (num : ℚ) / den = x.quarter / 10 ^ k)
include hden hratio

/-- A bound in units of the grid, and the same bound in quarters of the last place. -/
theorem mul_le_iff (a digits : Nat) :
    a * num ≤ digits * den ↔ (a : ℚ) * x.quarter ≤ digits * 10 ^ k := by
  have hpos : (0 : ℚ) < den := by exact_mod_cast hden
  have hgrid : (0 : ℚ) < 10 ^ k := by positivity
  calc a * num ≤ digits * den ↔ (a : ℚ) * num ≤ digits * den := by exact_mod_cast Iff.rfl
    _ ↔ (a : ℚ) * (num / den) ≤ digits := by rw [← mul_div_assoc, div_le_iff₀ hpos]
    _ ↔ (a : ℚ) * x.quarter ≤ digits * 10 ^ k := by
      rw [hratio, ← mul_div_assoc, div_le_iff₀ hgrid]

theorem le_mul_iff (a digits : Nat) :
    digits * den ≤ a * num ↔ digits * 10 ^ k ≤ (a : ℚ) * x.quarter := by
  have hpos : (0 : ℚ) < den := by exact_mod_cast hden
  have hgrid : (0 : ℚ) < 10 ^ k := by positivity
  calc digits * den ≤ a * num ↔ (digits : ℚ) * den ≤ a * num := by exact_mod_cast Iff.rfl
    _ ↔ (digits : ℚ) ≤ a * (num / den) := by rw [← mul_div_assoc, le_div_iff₀ hpos]
    _ ↔ digits * 10 ^ k ≤ (a : ℚ) * x.quarter := by
      rw [hratio, ← mul_div_assoc, le_div_iff₀ hgrid]

theorem readsAs_iff (hx : x.significand ≠ 0) (digits : Nat) :
    x.readsAs num den digits = true ↔ x.Covers (digits * 10 ^ k) := by
  have hlower : x.lowerQuarters ≤ 4 * x.significand := by
    unfold lowerQuarters
    split <;> omega
  have hlow := mul_le_iff hden hratio (4 * x.significand - x.lowerQuarters) digits
  have hhigh := le_mul_iff hden hratio (4 * x.significand + 2) digits
  have hlow' := le_mul_iff hden hratio (4 * x.significand - x.lowerQuarters) digits
  have hhigh' := mul_le_iff hden hratio (4 * x.significand + 2) digits
  rw [Nat.cast_sub hlower] at hlow hlow'
  push_cast at hlow hhigh hlow' hhigh'
  unfold readsAs Covers
  dsimp only
  split
  · rename_i heven
    have hodd : ¬ x.significand % 2 = 1 := by omega
    simp only [Bool.and_eq_true, decide_eq_true_eq, hlow, hhigh, hodd, false_imp_iff, and_true]
  · have hodd : x.significand % 2 = 1 := by omega
    simp only [Bool.and_eq_true, decide_eq_true_eq, ← not_le, hlow', hhigh', hodd, true_imp_iff]
    constructor
    · rintro ⟨hl, hh⟩
      exact ⟨(not_le.1 hl).le, (not_le.1 hh).le, hl, hh⟩
    · exact fun h => h.2.2

theorem covers_of_gridPoint? (hx : x.significand ≠ 0) {digits : Nat}
    (h : x.gridPoint? num den = some digits) : x.Covers (digits * 10 ^ k) := by
  unfold gridPoint? at h
  dsimp only at h
  split at h
  · rename_i hbelow habove
    cases h
    obtain hnearest | hnearest := Binary64.nearestEven_eq_or (4 * x.significand * num) den
    · rw [hnearest]
      exact (readsAs_iff hden hratio hx _).1 hbelow
    · rw [hnearest]
      exact (readsAs_iff hden hratio hx _).1 habove
  · rename_i hbelow _
    cases h
    exact (readsAs_iff hden hratio hx _).1 hbelow
  · rename_i _ habove
    cases h
    exact (readsAs_iff hden hratio hx _).1 habove
  · cases h

omit hden hratio in
theorem one_le_lowerQuarters (x : Finite64) : (1 : ℚ) ≤ x.lowerQuarters := by
  unfold lowerQuarters
  split <;> norm_num

omit hden hratio in
/-- What lies below the number by less than a quarter of the last place is covered. -/
theorem covers_of_near {q : ℚ} (hlow : 4 * x.significand * x.quarter - x.quarter < q)
    (hhigh : q ≤ 4 * x.significand * x.quarter) : x.Covers q := by
  have hquarter := x.quarter_pos
  have hlower := one_le_lowerQuarters x
  have hl : (4 * x.significand - x.lowerQuarters) * x.quarter < q := by nlinarith
  have hh : q < (4 * x.significand + 2) * x.quarter := by nlinarith
  exact ⟨hl.le, hh.le, fun _ => ⟨hl, hh⟩⟩

/-- On a grid finer than a quarter of the last place the point below the number is covered. -/
theorem isSome_gridPoint? (hx : x.significand ≠ 0) (hfine : (10 : ℚ) ^ k ≤ x.quarter) :
    (x.gridPoint? num den).isSome = true := by
  have hbelow : x.readsAs num den (4 * x.significand * num / den) = true := by
    rw [readsAs_iff hden hratio hx]
    have hover := (Nat.div_lt_iff_lt_mul hden).1 (Nat.lt_succ_self (4 * x.significand * num / den))
    have hlow := (le_mul_iff hden hratio (4 * x.significand) _).1 (Nat.div_mul_le_self _ den)
    have hhigh := mt (le_mul_iff hden hratio (4 * x.significand) _).2 (not_le.2 hover)
    push_cast at hlow hhigh
    rw [not_le] at hhigh
    exact covers_of_near (by linarith) hlow
  unfold gridPoint?
  dsimp only
  rw [hbelow]
  split <;> simp_all

end Grid

theorem covers_of_onGrid? (hx : x.significand ≠ 0) {k : Int} {digits : Nat}
    (h : x.onGrid? k = some digits) : x.Covers (digits * 10 ^ k) := by
  obtain ⟨num, den, hden, hratio, heq⟩ := x.onGrid?_eq k
  exact covers_of_gridPoint? hden hratio hx (heq ▸ h)

theorem isSome_onGrid? (hx : x.significand ≠ 0) {k : Int} (hfine : (10 : ℚ) ^ k ≤ x.quarter) :
    (x.onGrid? k).isSome = true := by
  obtain ⟨num, den, hden, hratio, heq⟩ := x.onGrid?_eq k
  rw [heq]
  exact isSome_gridPoint? hden hratio hx hfine

/-! ### The search -/

theorem covers_searchGrids (hx : x.significand ≠ 0) {steps : Nat} {k : Int}
    (hfine : (10 : ℚ) ^ (k - steps) ≤ x.quarter) :
    x.Covers (x.searchGrids steps k).value ∧
      k - steps ≤ (x.searchGrids steps k).exponent ∧ (x.searchGrids steps k).exponent ≤ k := by
  induction steps generalizing k with
  | zero =>
    rw [Nat.cast_zero, sub_zero] at hfine
    obtain ⟨digits, hdigits⟩ := Option.isSome_iff_exists.1 (isSome_onGrid? hx hfine)
    have hcovers := covers_of_onGrid? hx hdigits
    rw [searchGrids, hdigits]
    exact ⟨hcovers, by simp, le_rfl⟩
  | succ steps ih =>
    rw [searchGrids]
    split
    · rename_i digits hdigits
      exact ⟨covers_of_onGrid? hx hdigits, by simp; omega, le_rfl⟩
    · push_cast at hfine
      obtain ⟨hcovers, hlow, hhigh⟩ := ih (k := k - 1) (by rwa [sub_sub, add_comm 1])
      exact ⟨hcovers, by push_cast; omega, by omega⟩

theorem log2_significand_le (x : Finite64) : x.significand.log2 ≤ 52 := by
  by_cases hx : x.significand = 0
  · rw [hx]
    decide
  · exact Nat.lt_succ_iff.1 ((Nat.log2_lt hx).2 x.significand_lt)

/-- Powers of ten below powers of two, by `10 ^ 3 ≤ 2 ^ 10` and `2 ^ 93 ≤ 10 ^ 28`. -/
theorem ten_zpow_le_two_zpow {k j : Int} (hpos : 10 * k ≤ 3 * j) (hneg : 93 * k ≤ 28 * j) :
    (10 : ℚ) ^ k ≤ 2 ^ j := by
  have hten : (0 : ℚ) ≤ 10 ^ k := by positivity
  have htwo : (0 : ℚ) ≤ 2 ^ j := by positivity
  obtain hk | hk := le_total 0 k
  · obtain ⟨n, rfl⟩ := Int.eq_ofNat_of_zero_le hk
    rw [← pow_le_pow_iff_left₀ hten htwo (by decide : 3 ≠ 0)]
    calc ((10 : ℚ) ^ (n : Int)) ^ 3 = (10 ^ 3) ^ n := by rw [zpow_natCast, pow_right_comm]
      _ ≤ (2 ^ 10) ^ n := pow_le_pow_left₀ (by norm_num) (by norm_num) n
      _ = 2 ^ (10 * (n : Int)) := by rw [zpow_mul, zpow_natCast, zpow_ofNat]
      _ ≤ 2 ^ (j * 3) := zpow_le_zpow_right₀ one_le_two (by omega)
      _ = (2 ^ j) ^ 3 := by rw [zpow_mul, zpow_ofNat]
  · obtain ⟨n, hn⟩ := Int.eq_ofNat_of_zero_le (by omega : 0 ≤ -k)
    obtain rfl : k = -(n : Int) := by omega
    rw [← pow_le_pow_iff_left₀ hten htwo (by decide : 28 ≠ 0)]
    calc ((10 : ℚ) ^ (-(n : Int))) ^ 28 = ((10 ^ 28) ^ n)⁻¹ := by
          rw [zpow_neg, zpow_natCast, inv_pow, pow_right_comm]
      _ ≤ ((2 ^ 93) ^ n)⁻¹ :=
          inv_anti₀ (by positivity) (pow_le_pow_left₀ (by norm_num) (by norm_num) n)
      _ = 2 ^ (93 * -(n : Int)) := by rw [mul_neg, zpow_neg, zpow_mul, zpow_natCast, zpow_ofNat]
      _ ≤ 2 ^ (j * 28) := zpow_le_zpow_right₀ one_le_two (by omega)
      _ = (2 ^ j) ^ 28 := by rw [zpow_mul, zpow_ofNat]

theorem finest_le_quarter (x : Finite64) :
    (10 : ℚ) ^ (x.coarsestGrid - (20 : Nat)) ≤ x.quarter := by
  have hlog := x.log2_significand_le
  have hlow := x.exponent_ge
  have hhigh := x.exponent_le
  unfold coarsestGrid quarter
  apply ten_zpow_le_two_zpow <;> omega

/-- The decimal that is written is covered by the number. -/
theorem covers_shortest (hx : x.significand ≠ 0) : x.Covers x.shortest.value :=
  (covers_searchGrids hx x.finest_le_quarter).1

/-- Its power of ten is far from the bounds up to which powers of ten are computed. -/
theorem exponent_shortest (hx : x.significand ≠ 0) :
    -350 ≤ x.shortest.exponent ∧ x.shortest.exponent ≤ 320 := by
  obtain ⟨-, hlow, hhigh⟩ := covers_searchGrids hx x.finest_le_quarter
  have hlog := x.log2_significand_le
  have hleast := x.exponent_ge
  have hmost := x.exponent_le
  have hcoarsest : -330 ≤ x.coarsestGrid ∧ x.coarsestGrid ≤ 320 := by
    unfold coarsestGrid
    omega
  rw [Nat.cast_ofNat] at hlow
  unfold shortest
  omega

theorem digits_shortest_ne_zero (hx : x.significand ≠ 0) : x.shortest.digits ≠ 0 := by
  intro h
  have hpos := (covers_shortest hx).pos hx
  rw [Decimal.value, h] at hpos
  simp at hpos

/-! ### Reading -/

/-- A decimal that is covered is read as the number, however many zeros it is written with. -/
theorem ofDecimal_eq (hx : x.significand ≠ 0) {d : Decimal} (h : x.Covers d.value)
    (hlow : -400 ≤ d.exponent) (hhigh : d.exponent ≤ 400) :
    Binary64.ofDecimal x.negative d.digits d.exponent = .finite x := by
  have hdigits : d.digits ≠ 0 := by
    intro hzero
    have hpos := h.pos hx
    rw [Decimal.value, hzero] at hpos
    simp at hpos
  unfold Binary64.ofDecimal
  rw [if_neg hdigits, if_neg (by omega), if_neg (by omega)]
  unfold Decimal.value at h
  split
  · rename_i hnonneg
    obtain ⟨n, hn⟩ := Int.eq_ofNat_of_zero_le hnonneg
    rw [hn, zpow_natCast] at h
    rw [hn]
    refine round_eq hx one_pos ?_
    rw [Int.toNat_natCast, Nat.pow_eq]
    push_cast
    rwa [div_one]
  · rename_i hneg
    obtain ⟨n, hn⟩ := Int.eq_ofNat_of_zero_le (by omega : 0 ≤ -d.exponent)
    have hexponent : d.exponent = -(n : Int) := by omega
    rw [hexponent, zpow_neg, zpow_natCast, ← div_eq_mul_inv] at h
    rw [hn]
    refine round_eq hx (Nat.pow_pos (by decide)) ?_
    rw [Int.toNat_natCast, Nat.pow_eq]
    push_cast
    exact h

theorem eq_zero_of_isZero (hx : x.significand = 0) : x = Finite64.zero x.negative := by
  obtain ⟨negative, significand, exponent, hlt, hge, hle, hcanonical⟩ := x
  cases hx
  have hexponent : exponent = -1074 := hcanonical.resolve_left (by decide)
  subst hexponent
  rfl

end Finite64

end JsonLisp
