import JsonLisp.Json.Write
import JsonLisp.Proofs.Text.Numeral

/-!
# Reading numbers back

A number is spelled by a sign, digits before and after a point, and an exponent. What is spelled
without leading zeros is read as these parts, up to the first code point that cannot continue a
number.

## Main definitions

* `Json.Spelling`: the parts of a number as they are written.
* `Json.EndsNumber`: texts that do not continue a number.
* `Json.readScalar_spelling`: spellings are read back.
* `Json.exists_spells_writeInt`: an integer is written as one of its spellings.
-/

namespace JsonLisp.Json

open Text (isDigit)

/-- The text starts with nothing that continues a number. -/
def EndsNumber (rest : Text) : Prop :=
  ∀ c, rest.head? = some c → isDigit c = false ∧ c ≠ 46 ∧ c ≠ 101 ∧ c ≠ 69

def AllDigits (ds : Text) : Prop := ∀ c ∈ ds, isDigit c = true

/-- Digits without a leading zero, or a zero alone. -/
structure IsWhole (ds : Text) : Prop where
  ne_nil : ds ≠ []
  digits : AllDigits ds
  leading : ds.head? = some 48 → ds = [48]

/-- The parts of a number: its exponent, if there is one, is a sign and digits. -/
structure Spelling where
  negative : Bool
  whole : Text
  fraction : Text
  exponent : Option (Bool × Text)

namespace Spelling

def pointPart : Text → Text
  | [] => []
  | c :: ds => 46 :: c :: ds

def exponentPart : Option (Bool × Text) → Text
  | none => []
  | some (negative, ds) => 101 :: (if negative then 45 else 43) :: ds

/-- The digits and what follows them. -/
def magnitude (s : Spelling) : Text := s.whole ++ (pointPart s.fraction ++ exponentPart s.exponent)

def text (s : Spelling) : Text := if s.negative then 45 :: s.magnitude else s.magnitude

def exponentValue (e : Bool × Text) : Int :=
  let n : Int := Text.ofDigits (digitValues e.2)
  if e.1 then -n else n

def literal (s : Spelling) : Literal where
  negative := s.negative
  whole := s.whole
  fraction := s.fraction
  exponent := s.exponent.map exponentValue

structure Valid (s : Spelling) : Prop where
  whole : IsWhole s.whole
  fraction : AllDigits s.fraction
  exponent : ∀ e, s.exponent = some e → e.2 ≠ [] ∧ AllDigits e.2

end Spelling

/-! ### Digits -/

/-- The text starts with no digit. -/
def NoDigit (rest : Text) : Prop := ∀ c, rest.head? = some c → isDigit c = false

theorem takeWhile_digits {ds rest : Text} (hds : AllDigits ds) (hrest : NoDigit rest) :
    (ds ++ rest).takeWhile isDigit = ds ∧ (ds ++ rest).dropWhile isDigit = rest := by
  rw [List.takeWhile_append_of_pos hds, List.dropWhile_append_of_pos hds]
  cases rest with
  | nil => simp
  | cons c rest => simp [hrest c rfl]

theorem readWhole?_append {ds rest : Text} (hds : IsWhole ds) (hrest : NoDigit rest) :
    readWhole? (ds ++ rest) = some (ds, rest) := by
  obtain ⟨hne, hdigits, hleading⟩ := hds
  cases ds with
  | nil => exact absurd rfl hne
  | cons c ds =>
    by_cases hc : c = 48
    · cases hleading (by rw [hc]; rfl)
      rfl
    · have hsplit := takeWhile_digits (fun d hd => hdigits d (List.mem_cons_of_mem c hd)) hrest
      rw [List.cons_append, readWhole?, if_pos (hdigits c List.mem_cons_self), hsplit.1, hsplit.2]
      exact hc

theorem readFraction_pointPart {ds rest : Text} (hds : AllDigits ds) (hrest : NoDigit rest)
    (hpoint : rest.head? ≠ some 46) :
    readFraction (Spelling.pointPart ds ++ rest) = (ds, rest) := by
  cases ds with
  | nil =>
    rw [Spelling.pointPart, List.nil_append]
    cases rest with
    | nil => rfl
    | cons c rest =>
      rw [readFraction]
      exact fun _ h => hpoint (congrArg List.head? h)
  | cons c ds =>
    obtain ⟨htake, hdrop⟩ := takeWhile_digits hds hrest
    change readFraction (46 :: (c :: ds ++ rest)) = _
    rw [readFraction, htake, hdrop]

theorem exponentDigits?_append {negative : Bool} {ds rest : Text} (hne : ds ≠ [])
    (hds : AllDigits ds) (hrest : NoDigit rest) :
    exponentDigits? negative (ds ++ rest) = some (Spelling.exponentValue (negative, ds), rest) := by
  obtain ⟨htake, hdrop⟩ := takeWhile_digits hds hrest
  unfold exponentDigits?
  rw [htake, hdrop]
  cases ds with
  | nil => exact absurd rfl hne
  | cons c ds => rfl

theorem readExponent?_none {rest : Text} (hrest : EndsNumber rest) : readExponent? rest = none := by
  have hupper : rest.head? ≠ some 69 := fun h => (hrest 69 h).2.2.2 rfl
  have hlower : rest.head? ≠ some 101 := fun h => (hrest 101 h).2.2.1 rfl
  unfold readExponent?
  split
  · exact absurd rfl hlower
  · exact absurd rfl hupper
  · exact absurd rfl hlower
  · exact absurd rfl hupper
  · exact absurd rfl hlower
  · exact absurd rfl hupper
  · rfl

theorem readExponent?_some {negative : Bool} {ds rest : Text} (hne : ds ≠ [])
    (hds : AllDigits ds) (hrest : NoDigit rest) :
    readExponent? (Spelling.exponentPart (some (negative, ds)) ++ rest) =
      some (Spelling.exponentValue (negative, ds), rest) := by
  rw [Spelling.exponentPart]
  cases negative with
  | true => exact exponentDigits?_append hne hds hrest
  | false => exact exponentDigits?_append hne hds hrest

/-! ### Spellings -/

theorem EndsNumber.noDigit {rest : Text} (h : EndsNumber rest) : NoDigit rest :=
  fun c hc => (h c hc).1

namespace Spelling

variable {s : Spelling} {rest : Text}

theorem noDigit_exponentPart (hrest : EndsNumber rest) :
    NoDigit (exponentPart s.exponent ++ rest) := by
  cases s.exponent with
  | none => exact hrest.noDigit
  | some e =>
    intro c hc
    cases hc
    rfl

theorem head?_exponentPart (hrest : EndsNumber rest) :
    (exponentPart s.exponent ++ rest).head? ≠ some 46 := by
  cases s.exponent with
  | none => exact fun h => (hrest 46 h).2.1 rfl
  | some e =>
    intro h
    cases h

theorem noDigit_pointPart (hrest : EndsNumber rest) :
    NoDigit (pointPart s.fraction ++ (exponentPart s.exponent ++ rest)) := by
  cases s.fraction with
  | nil => exact noDigit_exponentPart hrest
  | cons d ds =>
    intro c hc
    cases hc
    rfl

theorem head?_magnitude (hs : s.Valid) (rest : Text) :
    ∃ c, (s.magnitude ++ rest).head? = some c ∧ isDigit c = true := by
  obtain ⟨c, ds, hwhole⟩ := List.exists_cons_of_ne_nil hs.whole.ne_nil
  refine ⟨c, ?_, hs.whole.digits c (by simp [hwhole])⟩
  rw [magnitude, hwhole]
  rfl

theorem text_append (s : Spelling) (rest : Text) :
    s.text ++ rest = if s.negative then 45 :: (s.magnitude ++ rest) else s.magnitude ++ rest := by
  unfold text
  split <;> rfl

/-- The parts of a spelling are read back. -/
theorem readLiteral?_text (hs : s.Valid) (hrest : EndsNumber rest) :
    readLiteral? (s.text ++ rest) = some (s.literal, rest) := by
  unfold readLiteral?
  split
  rename_i negative body hsign
  -- A magnitude starts with a digit, so the sign that is read is the one of the spelling.
  have hparts : negative = s.negative ∧ body = s.magnitude ++ rest := by
    rw [text_append] at hsign
    cases hnegative : s.negative with
    | true =>
      rw [hnegative] at hsign
      cases hsign
      exact ⟨rfl, rfl⟩
    | false =>
      obtain ⟨c, hhead, hdigit⟩ := head?_magnitude hs rest
      rw [hnegative, if_neg Bool.false_ne_true] at hsign
      split at hsign
      · rename_i hbody
        rw [hbody] at hhead
        cases hhead
        cases hdigit
      · cases hsign
        exact ⟨rfl, rfl⟩
  obtain ⟨rfl, rfl⟩ := hparts
  rw [magnitude, List.append_assoc, List.append_assoc,
    readWhole?_append hs.whole (noDigit_pointPart hrest)]
  simp only [Option.bind_eq_bind, Option.bind_some]
  rw [readFraction_pointPart hs.fraction (noDigit_exponentPart hrest) (head?_exponentPart hrest)]
  dsimp only
  cases hexponent : s.exponent with
  | none =>
    rw [exponentPart, List.nil_append, readExponent?_none hrest, literal, hexponent]
    rfl
  | some e =>
    obtain ⟨hne, hdigits⟩ := hs.exponent e hexponent
    rw [readExponent?_some hne hdigits hrest.noDigit, literal, hexponent]
    rfl

/-- A spelling starts with a digit, or with a sign and a digit. -/
theorem text_append_eq (hs : s.Valid) (rest : Text) :
    ∃ c t, isDigit c = true ∧
      (s.text ++ rest = c :: t ∨ s.text ++ rest = 45 :: c :: t) := by
  obtain ⟨c, hhead, hdigit⟩ := head?_magnitude hs rest
  obtain ⟨t, ht⟩ := List.head?_eq_some_iff.1 hhead
  refine ⟨c, t, hdigit, ?_⟩
  rw [text_append, ht]
  cases s.negative with
  | true => exact .inr rfl
  | false => exact .inl rfl

end Spelling

theorem afterWord?_eq_none {word : String} {t : Text}
    (h : (Text.ofString word).isPrefixOf t = false) : afterWord? word t = none := by
  unfold afterWord?
  rw [h]
  rfl

/-- Neither a digit nor a sign before a digit starts a word. -/
theorem afterWord?_digit {c : CodePoint} {t u : Text} (hdigit : isDigit c = true)
    (ht : t = c :: u ∨ t = 45 :: c :: u) {word : String}
    (hword : word ∈ ["null", "true", "false", "NaN", "Infinity", "-Infinity"]) :
    afterWord? word t = none := by
  apply afterWord?_eq_none
  obtain ⟨hlow, hhigh⟩ : 48 ≤ c ∧ c ≤ 57 := by
    simpa [isDigit] using hdigit
  have hletter (d : CodePoint) (hd : 57 < d) : (d == c) = false :=
    beq_false_of_ne (Nat.ne_of_gt (Nat.lt_of_le_of_lt hhigh hd))
  have hminus : ((45 : CodePoint) == c) = false :=
    beq_false_of_ne (Nat.ne_of_lt (Nat.lt_of_lt_of_le (by decide) hlow))
  simp only [List.mem_cons, List.not_mem_nil, or_false] at hword
  obtain rfl | rfl := ht <;>
    rcases hword with rfl | rfl | rfl | rfl | rfl | rfl <;>
    simp [Text.ofString, List.isPrefixOf, hletter, hminus]

theorem readScalar_digit {c : CodePoint} {t u : Text} (hdigit : isDigit c = true)
    (ht : t = c :: u ∨ t = 45 :: c :: u) : readScalar t = readNumber t := by
  have hnone {word : String}
      (hword : word ∈ ["null", "true", "false", "NaN", "Infinity", "-Infinity"]) :=
    afterWord?_digit hdigit ht hword
  have hconstant : (["NaN", "Infinity", "-Infinity"].find? fun word =>
      (afterWord? word t).isSome) = none := by
    simp [hnone]
  unfold readScalar
  rw [hnone (by decide), hnone (by decide), hnone (by decide), hconstant]

/-- The spelling is one of the number `d`. -/
structure Spelling.Spells (s : Spelling) (d : Json) : Prop where
  valid : s.Valid
  value : ∀ spelled, s.literal.value spelled = .ok d

/-- A number is read from the front of a text that goes on with something else. -/
theorem readScalar_spelling {s : Spelling} {d : Json} (hs : s.Spells d) {rest : Text}
    (hrest : EndsNumber rest) : readScalar (s.text ++ rest) = .ok (d, rest) := by
  obtain ⟨c, u, hdigit, htext⟩ := Spelling.text_append_eq hs.valid rest
  rw [readScalar_digit hdigit htext, readNumber, Spelling.readLiteral?_text hs.valid hrest]
  dsimp only
  rw [hs.value]
  rfl

/-! ### Integers -/

theorem IsWhole.of_head? {ds : Text} (hne : ds ≠ []) (hdigits : AllDigits ds)
    (hhead : ds.head? ≠ some 48) : IsWhole ds :=
  ⟨hne, hdigits, fun h => absurd h hhead⟩

theorem allDigits_ofNat (n : Nat) : AllDigits (Text.ofNat n) :=
  fun _ h => Text.isDigit_of_mem_ofNat h

theorem isWhole_ofNat (n : Nat) : IsWhole (Text.ofNat n) := by
  by_cases hn : n = 0
  · subst hn
    exact ⟨by decide, allDigits_ofNat 0, fun _ => rfl⟩
  · exact .of_head? (Text.ofNat_ne_nil n) (allDigits_ofNat n) (Text.head?_ofNat hn)

namespace Spelling

def ofInt (n : Int) : Spelling where
  negative := n < 0
  whole := Text.ofNat n.natAbs
  fraction := []
  exponent := none

theorem text_ofInt (n : Int) : (ofInt n).text = Text.ofInt n := by
  rw [text, magnitude, ofInt, pointPart, exponentPart, List.append_nil, List.append_nil]
  cases n with
  | ofNat n => simp [Text.ofInt]
  | negSucc n => simp [Int.negSucc_lt_zero, Text.ofInt, Int.natAbs_negSucc]

theorem valid_ofInt (n : Int) : (ofInt n).Valid where
  whole := isWhole_ofNat n.natAbs
  fraction := fun _ h => absurd h List.not_mem_nil
  exponent := fun _ h => absurd h (Option.some_ne_none _).symm

theorem isInteger_ofInt (n : Int) : (ofInt n).literal.isInteger = true := rfl

/-- An integer is its sign and its magnitude. -/
theorem signed_natAbs (n : Int) :
    (if decide (n < 0) = true then -(n.natAbs : Int) else n.natAbs) = n := by
  split
  · rename_i hsign
    have hneg := of_decide_eq_true hsign
    omega
  · rename_i hsign
    have hpos := of_decide_eq_false (Bool.eq_false_of_not_eq_true hsign)
    omega

theorem toInt_ofInt (n : Int) : (ofInt n).literal.toInt = n := by
  rw [Literal.toInt, literal, ofInt]
  dsimp only
  rw [Text.ofDigits_ofNat]
  exact signed_natAbs n

end Spelling

theorem isLongNumeral_iff (n : Nat) :
    isLongNumeral n = false ↔ (Text.ofNat n).length ≤ Text.maxNumeralDigits := by
  rw [isLongNumeral, decide_eq_false_iff_not, not_le, Nat.pow_eq,
    Text.length_ofNat_le_iff (by decide)]

theorem exists_spells_writeInt {n : Int} {t : Text} (h : writeInt n = .ok t) :
    ∃ s : Spelling, s.text = t ∧ s.Spells (.int n) := by
  unfold writeInt at h
  split at h
  · cases h
  · rename_i hlong
    cases h
    refine ⟨.ofInt n, Spelling.text_ofInt n, Spelling.valid_ofInt n, fun spelled => ?_⟩
    have hlength : (Spelling.ofInt n).literal.whole.length ≤ Text.maxNumeralDigits :=
      (isLongNumeral_iff n.natAbs).1 (Bool.eq_false_of_not_eq_true hlong)
    rw [Literal.value, if_pos (Spelling.isInteger_ofInt n), if_pos hlength, Spelling.toInt_ofInt]

end JsonLisp.Json
