import JsonLisp.Proofs.Binary64.Shortest
import JsonLisp.Proofs.Json.Number

/-!
# Reading floating point numbers back

The text of a finite number spells its shortest decimal, in whichever layout, with a fraction or
an exponent. So it is read as a floating point number, and as the same one.

## Main definitions

* `Json.Spelling.Denotes`: spellings of a decimal that are not read as integers.
* `Json.exists_spells_writeFloat`: a finite number is written as one of its spellings.
-/

namespace JsonLisp

namespace Json

open FloatLayout (zeros)

/-! ### Zeros around digits -/

theorem AllDigits.append {ds es : Text} (hds : AllDigits ds) (hes : AllDigits es) :
    AllDigits (ds ++ es) := fun c hc => (List.mem_append.1 hc).elim (hds c) (hes c)

theorem allDigits_zeros (k : Nat) : AllDigits (zeros k) := by
  intro c hc
  rw [List.eq_of_mem_replicate hc]
  rfl

theorem ofDigits_zeros (k : Nat) : Text.ofDigits (digitValues (zeros k)) = 0 := by
  induction k with
  | zero => rfl
  | succ k ih => exact ih

theorem ofDigits_zeros_append (k : Nat) (ds : Text) :
    Text.ofDigits (digitValues (zeros k ++ ds)) = Text.ofDigits (digitValues ds) := by
  rw [digitValues, List.map_append, Text.ofDigits_append, ← digitValues, ← digitValues,
    ofDigits_zeros, Nat.zero_mul, Nat.zero_add]

theorem ofDigits_append_zeros (ds : Text) (k : Nat) :
    Text.ofDigits (digitValues (ds ++ zeros k)) = Text.ofDigits (digitValues ds) * 10 ^ k := by
  have hlength : (digitValues (zeros k)).length = k := by
    rw [digitValues, List.length_map, zeros, List.length_replicate]
  rw [digitValues, List.map_append, Text.ofDigits_append, ← digitValues, ← digitValues,
    ofDigits_zeros, Nat.add_zero, hlength]

/-! ### Spellings of a decimal -/

namespace Spelling

/-- The number that the parts denote, without its sign. -/
def decimal (s : Spelling) : Decimal where
  digits := Text.ofDigits (digitValues (s.whole ++ s.fraction))
  exponent := (s.exponent.map exponentValue).getD 0 - s.fraction.length

/-- The spelling denotes `d` and is not that of an integer. Its last digit stands at the power of
ten of `d`, or right after the point. -/
structure Denotes (s : Spelling) (d : Decimal) : Prop where
  valid : s.Valid
  isInteger : s.literal.isInteger = false
  value : s.decimal.value = d.value
  exponent : s.decimal.exponent = d.exponent ∨ s.decimal.exponent = -1

theorem Denotes.of_decimal_eq {s : Spelling} {d : Decimal} (hvalid : s.Valid)
    (hinteger : s.literal.isInteger = false) (hdigits : s.decimal.digits = d.digits)
    (hexponent : s.decimal.exponent = d.exponent) : s.Denotes d where
  valid := hvalid
  isInteger := hinteger
  value := by rw [Decimal.value, hdigits, hexponent, Decimal.value]
  exponent := .inl hexponent

theorem pointPart_eq {ds : Text} (h : ds ≠ []) : pointPart ds = 46 :: ds := by
  cases ds with
  | nil => exact absurd rfl h
  | cons c ds => rfl

theorem isInteger_of_fraction {s : Spelling} (h : s.fraction ≠ []) :
    s.literal.isInteger = false := by
  rw [Literal.isInteger, literal, List.isEmpty_eq_false_iff.2 h, Bool.false_and]

section Layouts

variable {d : Decimal} {place : Int}

theorem denotes_belowOne (hplace : place = d.exponent + (Text.ofNat d.digits).length - 1)
    (hneg : place < 0) (negative : Bool) :
    Denotes ⟨negative, [48], zeros (-place - 1).toNat ++ Text.ofNat d.digits, none⟩ d := by
  have hfraction : zeros (-place - 1).toNat ++ Text.ofNat d.digits ≠ [] :=
    List.append_ne_nil_of_right_ne_nil _ (Text.ofNat_ne_nil _)
  refine .of_decimal_eq ⟨isWhole_ofNat 0, ?_, ?_⟩ (isInteger_of_fraction hfraction) ?_ ?_
  · exact (allDigits_zeros _).append (allDigits_ofNat _)
  · exact fun _ h => absurd h (Option.some_ne_none _).symm
  · have hwhole := ofDigits_zeros_append 1 (zeros (-place - 1).toNat ++ Text.ofNat d.digits)
    exact hwhole.trans (by rw [ofDigits_zeros_append, Text.ofDigits_ofNat])
  · have hlength : (zeros (-place - 1).toNat).length = (-place - 1).toNat :=
      List.length_replicate
    simp only [decimal, Option.map_none, Option.getD_none, List.length_append, hlength]
    omega

theorem denotes_whole (hd : d.digits ≠ 0)
    (hplace : place = d.exponent + (Text.ofNat d.digits).length - 1) (hpos : 0 ≤ place)
    (hwhole : (Text.ofNat d.digits).length ≤ place.toNat + 1) (negative : Bool) :
    Denotes ⟨negative,
      Text.ofNat d.digits ++ zeros (place.toNat + 1 - (Text.ofNat d.digits).length), [48], none⟩
      d := by
  obtain ⟨k, hk⟩ := Int.eq_ofNat_of_zero_le (by omega : 0 ≤ d.exponent)
  have hcount : place.toNat + 1 - (Text.ofNat d.digits).length = k := by omega
  rw [hcount]
  refine ⟨⟨?_, allDigits_zeros 1, ?_⟩, isInteger_of_fraction (List.cons_ne_nil _ _), ?_, .inr rfl⟩
  · refine .of_head? (List.append_ne_nil_of_left_ne_nil (Text.ofNat_ne_nil _) _)
      ((allDigits_ofNat _).append (allDigits_zeros k)) ?_
    rw [List.head?_append_of_ne_nil _ (Text.ofNat_ne_nil _)]
    exact Text.head?_ofNat hd
  · exact fun _ h => absurd h (Option.some_ne_none _).symm
  · have hzeros : (Text.ofNat d.digits ++ zeros k) ++ [48] = Text.ofNat d.digits ++ zeros (k + 1) := by
      rw [List.append_assoc, zeros, ← List.replicate_succ', zeros]
    have hdigits : Text.ofDigits (digitValues ((Text.ofNat d.digits ++ zeros k) ++ [48])) =
        d.digits * 10 ^ (k + 1) := by
      rw [hzeros, ofDigits_append_zeros, Text.ofDigits_ofNat]
    rw [Decimal.value, Decimal.value, hk, zpow_natCast]
    simp only [decimal, hdigits]
    push_cast
    norm_num
    ring

theorem isWhole_take (hd : d.digits ≠ 0) (k : Nat) :
    IsWhole ((Text.ofNat d.digits).take (k + 1)) := by
  have hne := Text.ofNat_ne_nil d.digits
  have hhead := Text.head?_ofNat hd
  have hdigits := allDigits_ofNat d.digits
  cases hnumeral : Text.ofNat d.digits with
  | nil => exact absurd hnumeral hne
  | cons c ds =>
    rw [hnumeral] at hhead hdigits
    exact .of_head? (List.cons_ne_nil _ _) (fun e he => hdigits e (List.mem_of_mem_take he)) hhead

theorem allDigits_drop (n k : Nat) : AllDigits ((Text.ofNat n).drop k) :=
  fun c hc => allDigits_ofNat n c (List.mem_of_mem_drop hc)

theorem length_drop_ofNat (n k : Nat) :
    ((Text.ofNat n).drop k).length = (Text.ofNat n).length - k := List.length_drop

theorem drop_ofNat_ne_nil {n k : Nat} (h : k < (Text.ofNat n).length) :
    (Text.ofNat n).drop k ≠ [] := fun hnil => absurd (List.drop_eq_nil_iff.1 hnil) (not_le.2 h)

theorem denotes_split (hd : d.digits ≠ 0)
    (hplace : place = d.exponent + (Text.ofNat d.digits).length - 1) (hpos : 0 ≤ place)
    (hsplit : place.toNat + 1 < (Text.ofNat d.digits).length) (negative : Bool) :
    Denotes ⟨negative, (Text.ofNat d.digits).take (place.toNat + 1),
      (Text.ofNat d.digits).drop (place.toNat + 1), none⟩ d := by
  have hlength := length_drop_ofNat d.digits (place.toNat + 1)
  refine .of_decimal_eq ⟨isWhole_take hd _, allDigits_drop _ _, ?_⟩
    (isInteger_of_fraction (drop_ofNat_ne_nil hsplit)) ?_ ?_
  · exact fun _ h => absurd h (Option.some_ne_none _).symm
  · rw [decimal, List.take_append_drop, Text.ofDigits_ofNat]
  · simp only [decimal, Option.map_none, Option.getD_none, hlength]
    omega

/-- The sign and the digits of a power of ten, with leading zeros. -/
def power (place : Int) (k : Nat) : Bool × Text :=
  (decide (place < 0), zeros k ++ Text.ofNat place.natAbs)

theorem exponentValue_power (place : Int) (k : Nat) : exponentValue (power place k) = place := by
  rw [exponentValue, power, ofDigits_zeros_append, Text.ofDigits_ofNat]
  exact signed_natAbs place

theorem denotes_scientific (hd : d.digits ≠ 0)
    (hplace : place = d.exponent + (Text.ofNat d.digits).length - 1) (k : Nat) (negative : Bool) :
    Denotes ⟨negative, (Text.ofNat d.digits).take 1, (Text.ofNat d.digits).drop 1,
      some (power place k)⟩ d := by
  have hlength := length_drop_ofNat d.digits 1
  have hpositive := List.length_pos_of_ne_nil (Text.ofNat_ne_nil d.digits)
  refine .of_decimal_eq ⟨isWhole_take hd 0, allDigits_drop _ _, ?_⟩ (Bool.and_false _) ?_ ?_
  · rintro e ⟨⟩
    exact ⟨List.append_ne_nil_of_right_ne_nil _ (Text.ofNat_ne_nil _),
      (allDigits_zeros k).append (allDigits_ofNat _)⟩
  · rw [decimal, List.take_append_drop, Text.ofDigits_ofNat]
  · simp only [decimal, Option.map_some, Option.getD_some, hlength, exponentValue_power]
    omega

/-- Whatever the layout, a decimal is written as one of its spellings. -/
theorem exists_spelling (l : FloatLayout) (hd : d.digits ≠ 0) (negative : Bool) :
    ∃ s : Spelling, s.negative = negative ∧ s.magnitude = l.render d ∧ s.Denotes d := by
  unfold FloatLayout.render
  dsimp only
  generalize hplace : d.exponent + ((Text.ofNat d.digits).length : Int) - 1 = place
  split
  -- All digits stand after the point, all before it, or the point is among them.
  · unfold FloatLayout.positional
    split
    · rename_i hneg
      refine ⟨_, rfl, ?_, denotes_belowOne hplace.symm hneg negative⟩
      rw [magnitude, pointPart_eq, exponentPart, List.append_nil]
      · rfl
      · exact List.append_ne_nil_of_right_ne_nil _ (Text.ofNat_ne_nil _)
    · rename_i hpos
      dsimp only
      split
      · rename_i hwhole
        exact ⟨_, rfl, rfl, denotes_whole hd hplace.symm (not_lt.1 hpos) hwhole negative⟩
      · rename_i hsplit
        refine ⟨_, rfl, ?_, denotes_split hd hplace.symm (not_lt.1 hpos) (not_le.1 hsplit) negative⟩
        rw [magnitude, pointPart_eq, exponentPart, List.append_nil]
        · rfl
        · exact drop_ofNat_ne_nil (not_le.1 hsplit)
  · refine ⟨_, rfl, ?_, denotes_scientific hd hplace.symm
      (l.exponentDigits - (Text.ofNat place.natAbs).length) negative⟩
    rw [magnitude, exponentPart, power, FloatLayout.scientific]
    dsimp only
    cases hfraction : (Text.ofNat d.digits).drop 1 with
    | nil => simp [pointPart]
    | cons c ds => simp [pointPart, FloatLayout.point]

end Layouts

/-- A spelling of a decimal that the number covers is read as the number. -/
theorem Denotes.toFloat {s : Spelling} {x : Finite64} (hx : x.significand ≠ 0)
    (hs : s.Denotes x.shortest) (hnegative : s.negative = x.negative) :
    s.literal.toFloat = .finite x := by
  have hcovers := Finite64.covers_shortest hx
  have hexponent := Finite64.exponent_shortest hx
  have hspelled := hs.exponent
  rw [← hs.value] at hcovers
  change Binary64.ofDecimal s.negative s.decimal.digits s.decimal.exponent = _
  rw [hnegative]
  exact Finite64.ofDecimal_eq hx hcovers (by omega) (by omega)

end Spelling

/-! ### Finite numbers -/

theorem exists_spelling_toText (x : Finite64) :
    ∃ s : Spelling, s.Valid ∧ s.text = x.toText ∧ s.literal.isInteger = false ∧
      s.literal.toFloat = .finite x := by
  by_cases hx : x.significand = 0
  · refine ⟨⟨x.negative, [48], [48], none⟩, ⟨isWhole_ofNat 0, allDigits_zeros 1, ?_⟩, ?_, rfl, ?_⟩
    · exact fun _ h => absurd h (Option.some_ne_none _).symm
    · rw [Finite64.toText, Finite64.isZero, if_pos (beq_iff_eq.2 hx)]
      rfl
    · rw [Finite64.eq_zero_of_isZero hx]
      rfl
  · obtain ⟨s, hnegative, hmagnitude, hs⟩ := Spelling.exists_spelling .standard
      (Finite64.digits_shortest_ne_zero hx) x.negative
    refine ⟨s, hs.valid, ?_, hs.isInteger, hs.toFloat hx hnegative⟩
    rw [Finite64.toText, Finite64.isZero, if_neg (mt beq_iff_eq.1 hx), Spelling.text, hnegative, hmagnitude]

theorem exists_spells_writeFloat {x : Binary64} {t : Text} (h : writeFloat x = .ok t) :
    ∃ s : Spelling, s.text = t ∧ s.Spells (.float x) := by
  cases x with
  | nan payload => cases h
  | infinity negative => cases h
  | finite x =>
    cases h
    obtain ⟨s, hvalid, htext, hinteger, hfloat⟩ := exists_spelling_toText x
    refine ⟨s, htext, hvalid, fun spelled => ?_⟩
    rw [Literal.value, hinteger, hfloat]
    rfl

end Json

end JsonLisp
