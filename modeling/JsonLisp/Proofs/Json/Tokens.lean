import JsonLisp.Proofs.Json.Grammar
import JsonLisp.Proofs.Json.Steps
import JsonLisp.Proofs.Json.Strings
import Mathlib.Tactic.IntervalCases

/-!
# Reading tokens

Strings, numbers and words are read exactly as the grammar writes them. A number is the longest
one at the front of a text, so it is read back only before a text that does not continue it.

## Main statements

* `Json.readString_eq_ok_iff`: the strings that are read.
* `Json.exists_numeral_of_readNumber`, `Json.readNumber_of_numeral`: the numbers that are read.
* `Json.exists_denotes_of_readScalar`: words and numbers.
-/

namespace JsonLisp.Json

open Text (isDigit ofString)
open Grammar

/-! ### Units of a string -/

theorem hexValue?_eq_some_iff {c : CodePoint} {d : Nat} : hexValue? c = some d ↔ HexDigit c d := by
  constructor
  · intro h
    unfold hexValue? at h
    split_ifs at h with hdecimal hupper hlower <;> cases h
    · obtain ⟨n, rfl⟩ := Nat.exists_eq_add_of_le hdecimal.1
      have hn : 48 + n ≤ 57 := hdecimal.2
      rw [Nat.add_sub_cancel_left]
      exact .decimal (by omega)
    · obtain ⟨n, rfl⟩ := Nat.exists_eq_add_of_le hupper.1
      have hn : 65 + n ≤ 70 := hupper.2
      have hvalue : 65 + n - 55 = 10 + n := by omega
      rw [hvalue]
      exact .upper (by omega)
    · obtain ⟨n, rfl⟩ := Nat.exists_eq_add_of_le hlower.1
      have hn : 97 + n ≤ 102 := hlower.2
      have hvalue : 97 + n - 87 = 10 + n := by omega
      rw [hvalue]
      exact .lower (by omega)
  · rintro (@⟨d, hd⟩ | @⟨d, hd⟩ | @⟨d, hd⟩) <;> interval_cases d <;> rfl

theorem hexNumber?_eq_some_iff {a b c d : CodePoint} {n : Nat} :
    hexNumber? a b c d = some n ↔ FourHex [a, b, c, d] n := by
  constructor
  · intro h
    simp only [hexNumber?, Option.bind_eq_bind, Option.bind_eq_some_iff, Option.pure_def,
      hexValue?_eq_some_iff] at h
    obtain ⟨w, hw, x, hx, y, hy, z, hz, h⟩ := h
    cases h
    have hvalue : 4096 * w + 256 * x + 16 * y + z = ((w * 16 + x) * 16 + y) * 16 + z := by omega
    rw [hvalue]
    exact .intro hw hx hy hz
  · rintro ⟨hw, hx, hy, hz⟩
    rw [← hexValue?_eq_some_iff] at hw hx hy hz
    simp [hexNumber?, hw, hx, hy, hz]
    omega

theorem shortEscape?_eq_some_iff {x c : CodePoint} :
    shortEscape? x = some c ↔ (x, c) ∈ escapes := by
  constructor
  · intro h
    unfold shortEscape? at h
    split_ifs at h with hself <;> cases h
    · rcases hself with rfl | rfl | rfl <;> decide
    all_goals subst_vars; decide
  · intro h
    simp only [escapes, List.mem_cons, Prod.mk.injEq, List.not_mem_nil, or_false] at h
    rcases h with h | h | h | h | h | h | h | h <;> obtain ⟨rfl, rfl⟩ := h <;> rfl

/-- What is read up to the closing quote are units. -/
theorem exists_units_of_readUnits {opening : Nat} {t rest : Text} {units : List StringUnit}
    (h : readUnits opening t = .ok (units, rest)) :
    ∃ s, t = s ++ 0x22 :: rest ∧ Units s units := by
  fun_induction readUnits opening t generalizing units with
  | case1 => cases h
  | case2 rest =>
    cases h
    exact ⟨[], rfl, .nil⟩
  | case3 => cases h
  | case4 a b c d e rest hnone => cases h
  | case5 a b c d e rest n hn ih =>
    obtain ⟨⟨later, after⟩, hlater, h⟩ := exists_of_bind_eq_ok h
    cases h
    obtain ⟨s, hs, hunits⟩ := ih hlater
    refine ⟨_, ?_, .numbered (hexNumber?_eq_some_iff.1 hn) hunits⟩
    simp [hs]
  | case6 => cases h
  | case7 c rest hu hnone => cases h
  | case8 x rest _ _ c hc ih =>
    obtain ⟨⟨later, after⟩, hlater, h⟩ := exists_of_bind_eq_ok h
    cases h
    obtain ⟨s, hs, hunits⟩ := ih hlater
    refine ⟨_, ?_, .escaped (shortEscape?_eq_some_iff.1 hc) hunits⟩
    simp [hs]
  | case9 => cases h
  | case10 c rest hquote hlone hhex hnumbered hescape hc ih =>
    obtain ⟨⟨later, after⟩, hlater, h⟩ := exists_of_bind_eq_ok h
    cases h
    obtain ⟨s, hs, hunits⟩ := ih hlater
    -- Something follows, at least the closing quote, so a backslash would start an escape.
    have hbackslash : c ≠ 92 := by
      rintro rfl
      cases rest with
      | nil => exact hlone rfl rfl
      | cons x rest => exact hescape x rest rfl rfl
    refine ⟨_, ?_, .unescaped (not_lt.1 hc) hquote hbackslash hunits⟩
    simp [hs]

/-- Units are read up to the quote behind them. -/
theorem readUnits_of_units {s : Text} {units : List StringUnit} (h : Units s units)
    (opening : Nat) (rest : Text) :
    readUnits opening (s ++ 0x22 :: rest) = .ok (units, rest) := by
  induction h with
  | nil => rfl
  | unescaped hlow hquote hbackslash _ ih =>
    rw [List.cons_append, readUnits_plain opening hlow hquote hbackslash, ih]
    rfl
  | @escaped x c s units hx _ ih =>
    have hread : readUnits opening (92 :: x :: (s ++ 0x22 :: rest)) =
        readUnits opening (s ++ 0x22 :: rest) >>= fun read =>
          .ok (.plain c :: read.1, read.2) := by
      simp only [escapes, List.mem_cons, Prod.mk.injEq, List.not_mem_nil, or_false] at hx
      rcases hx with h | h | h | h | h | h | h | h <;> obtain ⟨rfl, rfl⟩ := h <;> rfl
    rw [List.cons_append, List.cons_append, hread, ih]
    rfl
  | @numbered _ n s units hhex _ ih =>
    have hnumber := hhex
    obtain ⟨_, _, _, _⟩ := hhex
    rw [← hexNumber?_eq_some_iff] at hnumber
    obtain ⟨e, after, hnext⟩ := List.exists_cons_of_ne_nil
      (List.append_ne_nil_of_right_ne_nil s (List.cons_ne_nil 0x22 rest))
    simp only [List.cons_append, List.nil_append]
    rw [hnext] at ih ⊢
    rw [readUnits, hnumber]
    dsimp only
    rw [ih]
    rfl

/-! ### Strings -/

theorem isHighSurrogate_iff {n : CodePoint} : isHighSurrogate n = true ↔ IsHigh n := by
  simp [isHighSurrogate, IsHigh]

theorem isLowSurrogate_iff {n : CodePoint} : isLowSurrogate n = true ↔ IsLow n := by
  simp [isLowSurrogate, IsLow]

theorem joins_joinUnits (units : List StringUnit) : Joins units (joinUnits units) := by
  fun_induction joinUnits units with
  | case1 => exact .nil
  | case2 c rest ih => exact .plain ih
  | case3 high low rest hpair ih =>
    rw [Bool.and_eq_true, isHighSurrogate_iff, isLowSurrogate_iff] at hpair
    exact .pair hpair.1 hpair.2 ih
  | case4 high low rest hpair ih =>
    rw [Bool.and_eq_true, isHighSurrogate_iff, isLowSurrogate_iff, not_and] at hpair
    refine .alone (fun hhigh other hother => ?_) ih
    cases hother
    exact hpair hhigh
  | case5 c rest hlone ih =>
    refine .alone (fun _ low hlow => ?_) ih
    obtain ⟨later, rfl⟩ := List.head?_eq_some_iff.1 hlow
    exact absurd rfl (hlone low later)

theorem Grammar.Joins.eq_joinUnits {units : List StringUnit} {t : Text} (h : Joins units t) :
    t = joinUnits units := by
  induction h with
  | nil => rfl
  | plain _ ih => rw [joinUnits, ← ih]
  | pair hhigh hlow _ ih =>
    rw [← isHighSurrogate_iff] at hhigh
    rw [← isLowSurrogate_iff] at hlow
    rw [joinUnits, hhigh, hlow, ← ih]
    rfl
  | @alone n units t hapart _ ih =>
    rw [ih]
    cases units with
    | nil => rfl
    | cons unit later =>
      cases unit with
      | plain c => rfl
      | numbered low =>
        have hpair : ¬ (isHighSurrogate n && isLowSurrogate low) = true := by
          rw [Bool.and_eq_true, isHighSurrogate_iff, isLowSurrogate_iff]
          rintro ⟨hhigh, hlow⟩
          exact hapart hhigh low rfl hlow
        rw [joinUnits, if_neg hpair]

/-- A string is read behind its opening quote exactly if it is one of the grammar. -/
theorem readString_eq_ok_iff {t x rest : Text} :
    readString t = .ok (x, rest) ↔
      ∃ s, t = s ++ 0x22 :: rest ∧ Quotes (0x22 :: (s ++ [0x22])) x := by
  unfold readString
  constructor
  · intro h
    obtain ⟨⟨units, after⟩, hunits, h⟩ := exists_of_bind_eq_ok h
    cases h
    obtain ⟨s, rfl, hs⟩ := exists_units_of_readUnits hunits
    exact ⟨s, rfl, .intro hs (joins_joinUnits units)⟩
  · rintro ⟨s, rfl, hx⟩
    generalize hq : (0x22 :: (s ++ [0x22]) : Text) = q at hx
    obtain ⟨hunits, hjoins⟩ := hx
    obtain rfl : s = _ := List.append_cancel_right (List.cons.inj hq).2
    rw [readUnits_of_units hunits, hjoins.eq_joinUnits]
    rfl

/-! ### Digits -/

/-- The digits in front are read, and the rest starts with none. -/
theorem takeWhile_isDigit (t : Text) :
    t = t.takeWhile isDigit ++ t.dropWhile isDigit ∧ AllDigits (t.takeWhile isDigit) :=
  ⟨List.takeWhile_append_dropWhile.symm, fun _ hc => List.all_eq_true.1 List.all_takeWhile _ hc⟩

theorem ofDigits_digitValues (ds : Text) : Text.ofDigits (digitValues ds) = digitsValue ds := by
  induction ds using List.reverseRecOn with
  | nil => rfl
  | append_singleton ds d ih =>
    have hlast : Text.ofDigits (digitValues (ds ++ [d])) =
        10 * Text.ofDigits (digitValues ds) + (d - 48) := by
      simp [Text.ofDigits, digitValues]
    rw [hlast, ih, digitsValue, digitsValue, List.reverse_concat, List.map_cons, Nat.ofDigits_cons,
      Nat.add_comm]

theorem isWhole_of_readWhole? {t ds rest : Text} (h : readWhole? t = some (ds, rest)) :
    t = ds ++ rest ∧ IsWhole ds := by
  unfold readWhole? at h
  split at h
  · cases h
    exact ⟨rfl, List.cons_ne_nil _ _, List.forall_mem_singleton.2 rfl, fun _ => rfl⟩
  · rename_i c t hzero
    split at h
    · rename_i hc
      cases h
      obtain ⟨ht, hdigits⟩ := takeWhile_isDigit t
      refine ⟨congrArg (c :: ·) ht, .of_head? (List.cons_ne_nil _ _) ?_ ?_⟩
      · exact List.forall_mem_cons.2 ⟨hc, hdigits⟩
      · exact fun h => hzero (Option.some.inj h)
    · cases h
  · cases h

/-! ### Fractions and exponents -/

theorem exists_fraction_of_readFraction {t ds rest : Text} (h : readFraction t = (ds, rest)) :
    ∃ point, t = point ++ rest ∧ Fraction point ds := by
  unfold readFraction at h
  split at h
  · rename_i t
    split at h
    · cases h
      exact ⟨[], rfl, .absent⟩
    · rename_i hne
      cases h
      obtain ⟨ht, hdigits⟩ := takeWhile_isDigit t
      exact ⟨_, congrArg (46 :: ·) ht, .point hne hdigits⟩
  · cases h
    exact ⟨[], rfl, .absent⟩

theorem Grammar.Fraction.eq_pointPart {point ds : Text} (h : Fraction point ds) :
    point = Spelling.pointPart ds ∧ AllDigits ds := by
  cases h with
  | absent => exact ⟨rfl, fun _ hc => absurd hc List.not_mem_nil⟩
  | point hne hdigits =>
    obtain ⟨c, ds, rfl⟩ := List.exists_cons_of_ne_nil hne
    exact ⟨rfl, hdigits⟩

theorem exists_digits_of_exponentDigits? {negative : Bool} {t rest : Text} {e : Int}
    (h : exponentDigits? negative t = some (e, rest)) :
    ∃ ds, t = ds ++ rest ∧ ds ≠ [] ∧ AllDigits ds ∧ e = signed negative (digitsValue ds) := by
  unfold exponentDigits? at h
  split at h
  · cases h
  · rename_i hne
    obtain ⟨ht, hdigits⟩ := takeWhile_isDigit t
    rw [ofDigits_digitValues] at h
    cases h
    exact ⟨_, ht, hne, hdigits, rfl⟩

/-- The letter, the sign and the digits of an exponent in front of a text. -/
theorem exists_exponent_of_parts {letter : CodePoint} (hletter : letter = 0x65 ∨ letter = 0x45)
    {sign t rest : Text} {negative : Bool} (hsign : ExponentSign sign negative) {e : Int}
    (h : exponentDigits? negative t = some (e, rest)) :
    ∃ power, letter :: (sign ++ t) = power ++ rest ∧ Exponent power (some e) := by
  obtain ⟨ds, rfl, hne, hdigits, rfl⟩ := exists_digits_of_exponentDigits? h
  exact ⟨_, by simp, .power hletter hsign hne hdigits⟩

theorem exists_exponent_of_readExponent? {t rest : Text} {e : Int}
    (h : readExponent? t = some (e, rest)) :
    ∃ power, t = power ++ rest ∧ Exponent power (some e) := by
  unfold readExponent? at h
  split at h
  · exact exists_exponent_of_parts (.inl rfl) (.of .minus) h
  · exact exists_exponent_of_parts (.inr rfl) (.of .minus) h
  · exact exists_exponent_of_parts (.inl rfl) .plus h
  · exact exists_exponent_of_parts (.inr rfl) .plus h
  · exact exists_exponent_of_parts (.inl rfl) (.of .absent) h
  · exact exists_exponent_of_parts (.inr rfl) (.of .absent) h
  · cases h

theorem readExponent?_of_exponent {power rest : Text} {e : Int} (h : Exponent power (some e))
    (hrest : NoDigit rest) : readExponent? (power ++ rest) = some (e, rest) := by
  generalize he : some e = exponent at h
  cases h with
  | absent => cases he
  | @power letter sign negative ds hletter hsign hne hdigits =>
    cases he
    have hread : exponentDigits? negative (ds ++ rest) =
        some (signed negative (digitsValue ds), rest) := by
      rw [exponentDigits?_append hne hdigits hrest, Spelling.exponentValue, ofDigits_digitValues]
      rfl
    rw [← hread, List.cons_append, List.append_assoc]
    cases hsign with
    | plus => rcases hletter with rfl | rfl <;> rfl
    | of hsign =>
      cases hsign with
      | minus => rcases hletter with rfl | rfl <;> rfl
      | absent =>
        -- The first digit is neither of the signs.
        obtain ⟨c, ds, rfl⟩ := List.exists_cons_of_ne_nil hne
        have hc : isDigit c = true := hdigits c List.mem_cons_self
        have hplus : c ≠ 43 := by rintro rfl; cases hc
        have hminus : c ≠ 45 := by rintro rfl; cases hc
        rcases hletter with rfl | rfl <;> simp [readExponent?, hplus, hminus]

/-! ### Numbers -/

theorem exists_literalOf_of_readLiteral? {t rest : Text} {l : Literal}
    (h : readLiteral? t = some (l, rest)) : ∃ s, t = s ++ rest ∧ LiteralOf s l := by
  unfold readLiteral? at h
  split at h
  rename_i negative body hsplit
  have hsign : ∃ sign, t = sign ++ body ∧ Sign sign negative := by
    split at hsplit <;> cases hsplit
    · exact ⟨[45], rfl, .minus⟩
    · exact ⟨[], rfl, .absent⟩
  clear hsplit
  obtain ⟨sign, rfl, hsign⟩ := hsign
  obtain ⟨⟨whole, afterWhole⟩, hwhole, hparts⟩ := Option.bind_eq_some_iff.1 h
  obtain ⟨rfl, hdigits⟩ := isWhole_of_readWhole? hwhole
  cases hread : readFraction afterWhole with
  | mk fraction afterFraction =>
    obtain ⟨point, rfl, hfraction⟩ := exists_fraction_of_readFraction hread
    dsimp only at hparts
    rw [hread] at hparts
    dsimp only at hparts
    split at hparts
    · rename_i exponent after hexponent
      cases hparts
      obtain ⟨power, rfl, hpower⟩ := exists_exponent_of_readExponent? hexponent
      exact ⟨sign ++ (whole ++ (point ++ power)), by simp, .intro hsign hdigits hfraction hpower⟩
    · cases hparts
      exact ⟨sign ++ (whole ++ (point ++ [])), by simp, .intro hsign hdigits hfraction .absent⟩

/-- A literal starts with a digit, or with a sign and a digit. -/
theorem Grammar.LiteralOf.exists_digit {s : Text} {l : Literal} (h : LiteralOf s l) :
    ∃ c u, isDigit c = true ∧ (s = c :: u ∨ s = 45 :: c :: u) := by
  obtain @⟨sign, whole, point, power, _, _, _, hsign, hwhole, -, -⟩ := h
  obtain ⟨c, ds, rfl⟩ := List.exists_cons_of_ne_nil hwhole.ne_nil
  refine ⟨c, ds ++ (point ++ power), hwhole.digits c List.mem_cons_self, ?_⟩
  cases hsign with
  | absent => exact .inl rfl
  | minus => exact .inr rfl

/-- An exponent ends the digits before it, as does what ends the number. -/
theorem Grammar.Exponent.ends {power rest : Text} {exponent : Option Int}
    (h : Exponent power exponent) (hrest : EndsNumber rest) :
    NoDigit (power ++ rest) ∧ (power ++ rest).head? ≠ some 46 := by
  cases h with
  | absent => exact ⟨hrest.noDigit, fun h => (hrest 46 h).2.1 rfl⟩
  | power hletter =>
    constructor
    · rintro _ ⟨⟩
      rcases hletter with rfl | rfl <;> rfl
    · rcases hletter with rfl | rfl <;> nofun

theorem Grammar.Fraction.noDigit {point fraction rest : Text} (h : Fraction point fraction)
    (hrest : NoDigit rest) : NoDigit (point ++ rest) := by
  cases h with
  | absent => exact hrest
  | point =>
    rintro _ ⟨⟩
    rfl

/-- The parts of a literal are read back before a text that does not continue it. -/
theorem readLiteral?_of_literalOf {s rest : Text} {l : Literal} (h : LiteralOf s l)
    (hrest : EndsNumber rest) : readLiteral? (s ++ rest) = some (l, rest) := by
  obtain @⟨sign, whole, point, power, fraction, negative, exponent, hsign, hwhole, hfraction,
    hexponent⟩ := h
  obtain ⟨hnodigit, hnopoint⟩ := hexponent.ends hrest
  have hread := readWhole?_append hwhole (hfraction.noDigit hnodigit)
  obtain ⟨rfl, hdigits⟩ := hfraction.eq_pointPart
  have hpoint := readFraction_pointPart hdigits hnodigit hnopoint
  unfold readLiteral?
  split
  rename_i negative' body hsplit
  -- The whole part starts with a digit, so the sign that is read is the one of the literal.
  have hparts : negative' = negative ∧
      body = whole ++ (Spelling.pointPart fraction ++ (power ++ rest)) := by
    cases hsign with
    | minus =>
      cases hsplit
      simp
    | absent =>
      obtain ⟨c, ds, rfl⟩ := List.exists_cons_of_ne_nil hwhole.ne_nil
      have hdigit : isDigit c = true := hwhole.digits c List.mem_cons_self
      split at hsplit
      · rename_i heq
        cases heq
        cases hdigit
      · cases hsplit
        simp
  obtain ⟨rfl, rfl⟩ := hparts
  rw [hread]
  simp only [Option.bind_eq_bind, Option.bind_some]
  rw [hpoint]
  dsimp only
  cases hexponent with
  | absent =>
    rw [List.nil_append, readExponent?_none hrest]
    rfl
  | power hletter hsign hne hdigits =>
    rw [readExponent?_of_exponent (.power hletter hsign hne hdigits) hrest.noDigit]
    rfl

/-- The number of a literal is the one of the grammar. -/
theorem numeral_of_value {s spelled : Text} {l : Literal} {d : Json} (hs : LiteralOf s l)
    (h : l.value spelled = .ok d) : Numeral s d := by
  obtain ⟨negative, whole, fraction, exponent⟩ := l
  unfold Literal.value at h
  split at h
  · rename_i hinteger
    obtain ⟨rfl, rfl⟩ : fraction = [] ∧ exponent = none := by
      simpa [Literal.isInteger] using hinteger
    split at h
    · rename_i hlength
      cases h
      rw [Literal.toInt, ofDigits_digitValues]
      exact .integer hs hlength
    · cases h
  · rename_i hinteger
    split at h
    · rename_i hfinite
      cases h
      refine .float hs (by simpa [Literal.isInteger] using hinteger) ?_ hfinite
      rw [Literal.toFloat, ofDigits_digitValues]
    · cases h

theorem Grammar.Numeral.exists_literal {s : Text} {d : Json} (h : Numeral s d) :
    ∃ l, LiteralOf s l ∧ ∀ spelled, l.value spelled = .ok d := by
  cases h with
  | @integer whole negative hs hlength =>
    refine ⟨_, hs, fun spelled => ?_⟩
    have hinteger : Literal.isInteger ⟨negative, whole, [], none⟩ = true := rfl
    have hshort : whole.length ≤ Text.maxNumeralDigits := hlength
    rw [Literal.value, if_pos hinteger, if_pos hshort, Literal.toInt, ofDigits_digitValues]
    rfl
  | @float whole fraction negative exponent x hs hparts hx hfinite =>
    refine ⟨_, hs, fun spelled => ?_⟩
    have hfloat : Literal.toFloat ⟨negative, whole, fraction, exponent⟩ = x := by
      rw [Literal.toFloat, ofDigits_digitValues, hx]
    rw [Literal.value, if_neg (by simpa [Literal.isInteger] using hparts), hfloat, if_pos hfinite]

theorem exists_numeral_of_readNumber {t rest : Text} {d : Json} (h : readNumber t = .ok (d, rest)) :
    ∃ s, t = s ++ rest ∧ Numeral s d := by
  unfold readNumber at h
  split at h
  · cases h
  · rename_i l rest' hliteral
    obtain ⟨value, hvalue, h⟩ := exists_of_bind_eq_ok h
    cases h
    obtain ⟨s, ht, hs⟩ := exists_literalOf_of_readLiteral? hliteral
    exact ⟨s, ht, numeral_of_value hs hvalue⟩

theorem Grammar.Numeral.exists_digit {s : Text} {d : Json} (h : Numeral s d) (rest : Text) :
    ∃ c u, isDigit c = true ∧ (s ++ rest = c :: u ∨ s ++ rest = 45 :: c :: u) := by
  obtain ⟨l, hs, -⟩ := h.exists_literal
  obtain ⟨c, u, hdigit, rfl | rfl⟩ := hs.exists_digit
  · exact ⟨c, u ++ rest, hdigit, .inl rfl⟩
  · exact ⟨c, u ++ rest, hdigit, .inr rfl⟩

theorem readNumber_of_numeral {s rest : Text} {d : Json} (h : Numeral s d) (hrest : EndsNumber rest) :
    readNumber (s ++ rest) = .ok (d, rest) := by
  obtain ⟨l, hs, hvalue⟩ := h.exists_literal
  rw [readNumber, readLiteral?_of_literalOf hs hrest]
  dsimp only
  rw [hvalue]
  rfl

/-! ### Scalars -/

theorem eq_append_of_afterWord? {word : String} {t rest : Text}
    (h : afterWord? word t = some rest) : t = ofString word ++ rest := by
  unfold afterWord? at h
  split at h
  · rename_i hprefix
    cases h
    obtain ⟨rest, rfl⟩ := List.isPrefixOf_iff_prefix.1 hprefix
    have hlength : word.length = (ofString word).length := by simp [ofString, String.length_toList]
    rw [hlength, List.drop_left]
  · cases h

/-- Words and numbers that are read are those of the grammar. -/
theorem ScalarStep.exists_denotes {t rest : Text} {d : Json} (h : ScalarStep t d rest) :
    ∃ s, t = s ++ rest ∧ Denotes s (.value d) := by
  cases h with
  | nullWord hword => exact ⟨_, eq_append_of_afterWord? hword, .nullWord⟩
  | trueWord hword => exact ⟨_, eq_append_of_afterWord? hword, .trueWord⟩
  | falseWord hword => exact ⟨_, eq_append_of_afterWord? hword, .falseWord⟩
  | number hnumber =>
    obtain ⟨s, ht, hs⟩ := exists_numeral_of_readNumber hnumber
    exact ⟨s, ht, .number hs⟩

end JsonLisp.Json
