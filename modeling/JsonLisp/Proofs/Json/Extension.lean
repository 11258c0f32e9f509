import JsonLisp.Proofs.Json.Acceptance
import Mathlib.Data.List.TakeWhile
import Mathlib.Tactic.IntervalCases

/-!
# Reading longer texts

White space ends everything that can be read: a document at the front of a text is read in the same
way if white space and more text follow. So the documents of a text that is read completely are the
first ones of every such longer text.

## Main statements

* `Json.readFront_append`: one document.
* `Json.readFronts_append`, `Json.decodeAll_append`: all documents of a text.
-/

namespace JsonLisp.Json

open Text (isBlank isDigit)
open Grammar

/-- The text starts with white space. -/
def StartsBlank (u : Text) : Prop := ∃ c v, u = c :: v ∧ isBlank c = true

/-- White space is no part of a number. -/
theorem isBlank_bounds {c : CodePoint} (h : isBlank c = true) :
    isDigit c = false ∧ c ≠ 43 ∧ c ≠ 45 ∧ c ≠ 46 ∧ c ≠ 69 ∧ c ≠ 101 := by
  refine ⟨?_, ?_, ?_, ?_, ?_, ?_⟩
  · by_contra hdigit
    obtain ⟨hlow, hhigh⟩ : 48 ≤ c ∧ c ≤ 57 := by
      simpa [isDigit] using hdigit
    interval_cases c <;> cases h
  all_goals
    rintro rfl
    cases h

namespace StartsBlank

variable {u : Text}

theorem endsNumber (h : StartsBlank u) : EndsNumber u := by
  obtain ⟨c, v, rfl, hc⟩ := h
  rintro _ ⟨⟩
  obtain ⟨hdigit, -, -, hpoint, hupper, hlower⟩ := isBlank_bounds hc
  exact ⟨hdigit, hpoint, hlower, hupper⟩

/-! ### Numbers -/

theorem takeWhile_append (h : StartsBlank u) (t : Text) :
    (t ++ u).takeWhile isDigit = t.takeWhile isDigit ∧
      (t ++ u).dropWhile isDigit = t.dropWhile isDigit ++ u := by
  induction t with
  | nil =>
    obtain ⟨c, v, rfl, hc⟩ := h
    simp [(isBlank_bounds hc).1]
  | cons d t ih => by_cases hd : isDigit d = true <;> simp [hd, ih]

theorem readWhole?_append (h : StartsBlank u) (t : Text) :
    readWhole? (t ++ u) = (readWhole? t).map fun read => (read.1, read.2 ++ u) := by
  obtain ⟨htake, hdrop⟩ := h.takeWhile_append t.tail
  cases t with
  | nil =>
    obtain ⟨c, v, rfl, hc⟩ := h
    have hdigit := (isBlank_bounds hc).1
    have hzero : c ≠ 48 := by
      rintro rfl
      cases hdigit
    rw [List.nil_append, readWhole?, hdigit]
    · rfl
    · exact hzero
  | cons d t =>
    rw [List.tail_cons] at htake hdrop
    by_cases hzero : d = 48
    · subst hzero
      rfl
    · rw [List.cons_append, readWhole?, readWhole?, htake, hdrop]
      · split <;> rfl
      · exact hzero
      · exact hzero

theorem readFraction_append (h : StartsBlank u) (t : Text) :
    readFraction (t ++ u) = ((readFraction t).1, (readFraction t).2 ++ u) := by
  obtain ⟨htake, hdrop⟩ := h.takeWhile_append t.tail
  cases t with
  | nil =>
    obtain ⟨c, v, rfl, hc⟩ := h
    have hpoint := (isBlank_bounds hc).2.2.2.1
    simp [readFraction, hpoint]
  | cons d t =>
    rw [List.tail_cons] at htake hdrop
    by_cases hpoint : d = 46
    · subst hpoint
      rw [List.cons_append, readFraction, readFraction, htake, hdrop]
      cases t.takeWhile isDigit <;> rfl
    · simp [readFraction, hpoint]

theorem exponentDigits?_append (h : StartsBlank u) (negative : Bool) (t : Text) :
    exponentDigits? negative (t ++ u) =
      (exponentDigits? negative t).map fun read => (read.1, read.2 ++ u) := by
  obtain ⟨htake, hdrop⟩ := h.takeWhile_append t
  unfold exponentDigits?
  rw [htake, hdrop]
  cases t.takeWhile isDigit <;> rfl

/-- The sign of an exponent is the code point behind the letter, if it is one. -/
theorem readExponent?_letter {letter : CodePoint} (hletter : letter = 101 ∨ letter = 69)
    {c : CodePoint} {t : Text} (hplus : c ≠ 43) (hminus : c ≠ 45) :
    readExponent? (letter :: c :: t) = exponentDigits? false (c :: t) := by
  rcases hletter with rfl | rfl <;> simp [readExponent?, hplus, hminus]

theorem readExponent?_append (h : StartsBlank u) (t : Text) :
    readExponent? (t ++ u) = (readExponent? t).map fun read => (read.1, read.2 ++ u) := by
  have hdigits (negative : Bool) (t : Text) := h.exponentDigits?_append negative t
  obtain ⟨c, v, rfl, hc⟩ := h
  obtain ⟨-, hplus, hminus, -, hupper, hlower⟩ := isBlank_bounds hc
  cases t with
  | nil => simp [readExponent?, hupper, hlower]
  | cons letter t =>
    by_cases hletter : letter = 101 ∨ letter = 69
    · cases t with
      | nil =>
        rw [List.cons_append, List.nil_append, readExponent?_letter hletter hplus hminus]
        rcases hletter with rfl | rfl <;> exact hdigits false []
      | cons sign t =>
        by_cases hsign : sign = 43 ∨ sign = 45
        · rcases hletter with rfl | rfl <;> rcases hsign with rfl | rfl <;>
            exact hdigits _ t
        · rw [not_or] at hsign
          rw [List.cons_append, List.cons_append, readExponent?_letter hletter hsign.1 hsign.2,
            readExponent?_letter hletter hsign.1 hsign.2]
          exact hdigits false (sign :: t)
    · rw [not_or] at hletter
      simp [readExponent?, hletter]

theorem readLiteral?_append (h : StartsBlank u) {t rest : Text} {l : Literal}
    (hread : readLiteral? t = some (l, rest)) : readLiteral? (t ++ u) = some (l, rest ++ u) := by
  unfold readLiteral? at hread ⊢
  split at hread
  rename_i negative body hbody
  split
  rename_i negative' body' hbody'
  obtain ⟨⟨whole, afterWhole⟩, hwhole, hparts⟩ := Option.bind_eq_some_iff.1 hread
  have hsign : negative' = negative ∧ body' = body ++ u := by
    cases t with
    | nil =>
      cases hbody
      cases hwhole
    | cons c t =>
      by_cases hminus : c = 45
      · subst hminus
        cases hbody
        cases hbody'
        exact ⟨rfl, rfl⟩
      · split at hbody
        · rename_i heq
          exact absurd (List.cons.inj heq).1 hminus
        · split at hbody'
          · rename_i heq
            exact absurd (List.cons.inj heq).1 hminus
          · cases hbody
            cases hbody'
            exact ⟨rfl, rfl⟩
  obtain ⟨rfl, rfl⟩ := hsign
  rw [h.readWhole?_append, hwhole]
  dsimp only [Option.map_some, Option.bind_eq_bind, Option.bind_some] at hparts ⊢
  rw [h.readFraction_append, h.readExponent?_append]
  cases hexponent : readExponent? (readFraction afterWhole).2 with
  | none =>
    rw [hexponent] at hparts
    cases hparts
    rfl
  | some read =>
    rw [hexponent] at hparts
    cases hparts
    rfl

end StartsBlank

/-! ### Values -/

/-- A number is read by the reader of numbers. -/
theorem readNumber_of_readValue {steps : Nat} {t rest : Text} {d : Json} (hd : d.IsNumber)
    (h : readValue steps t = .ok (d, rest)) : readNumber t = .ok (d, rest) := by
  obtain ⟨_, -, hstep⟩ := exists_valueStep h
  cases hstep with
  | text | emptyList | list | emptyObject | object => cases hd
  | scalar hscalar =>
    cases hscalar with
    | nullWord | trueWord | falseWord => cases hd
    | number hnumber => exact hnumber

/-- The spelling shows in errors only. -/
theorem Literal.value_eq_ok {l : Literal} {spelled : Text} {d : Json}
    (h : l.value spelled = .ok d) (spelled' : Text) : l.value spelled' = .ok d := by
  unfold Literal.value at h ⊢
  grind

theorem readNumber_append {t u rest : Text} {d : Json} (hu : StartsBlank u)
    (h : readNumber t = .ok (d, rest)) : readNumber (t ++ u) = .ok (d, rest ++ u) := by
  unfold readNumber at h ⊢
  split at h
  · cases h
  · rename_i l after hread
    obtain ⟨value, hvalue, h⟩ := exists_of_bind_eq_ok h
    cases h
    rw [hu.readLiteral?_append hread]
    dsimp only
    rw [Literal.value_eq_ok hvalue]
    rfl

/-- A document is read in the same way if white space follows the text. -/
theorem readValue_append {steps more : Nat} {t u rest : Text} {d : Json} (hu : StartsBlank u)
    (h : readValue steps t = .ok (d, rest)) (hmore : 2 * t.length ≤ more) :
    readValue more (t ++ u) = .ok (d, rest ++ u) := by
  by_cases hd : d.IsNumber
  · have hnumber := readNumber_of_readValue hd h
    obtain ⟨s, ht, hs⟩ := exists_numeral_of_readNumber hnumber
    obtain ⟨c, v, hdigit, hstart⟩ := hs.exists_digit (rest ++ u)
    rw [← List.append_assoc, ← ht] at hstart
    have hpos : 0 < s.length := by
      obtain ⟨c, v, rfl, -⟩ := startsDocument_numeral hs
      exact Nat.succ_pos _
    rw [ht, List.length_append] at hmore
    obtain ⟨more, rfl⟩ := Nat.exists_eq_succ_of_ne_zero (by omega : more ≠ 0)
    rw [readValue_digit hdigit hstart, readNumber_append hu hnumber]
  · obtain ⟨s, rfl, hs⟩ := (takesPhrases steps).value h
    rw [List.length_append] at hmore
    rw [List.append_assoc]
    exact hs.parses.2 (fun hnumber => absurd hnumber hd) (by omega)

theorem readFront_append {t u rest : Text} {d : Json} (hu : StartsBlank u)
    (h : readFront t = .ok (d, rest)) : readFront (t ++ u) = .ok (d, rest ++ u) :=
  readValue_append hu h (by rw [List.length_append]; omega)

/-- A document takes at least one code point. -/
theorem length_lt_of_readFront {t rest : Text} {d : Json} (h : readFront t = .ok (d, rest)) :
    rest.length < t.length := by
  obtain ⟨s, rfl, hs⟩ := exists_denotes_of_readFront h
  obtain ⟨⟨c, u, rfl, -⟩, -⟩ := hs.parses
  simp only [List.length_append, List.length_cons]
  omega

/-! ### Sequences of documents -/

theorem length_dropWhile_le (p : CodePoint → Bool) (t : Text) :
    (t.dropWhile p).length ≤ t.length := (List.dropWhile_suffix p).length_le

/-- Any bound is enough that is no less than the length of the text. -/
theorem readFronts_bound {b c : Nat} {t : Text} (hb : t.length ≤ b) (hc : t.length ≤ c) :
    readFronts b t = readFronts c t := by
  induction b generalizing c t with
  | zero =>
    rw [List.length_eq_zero_iff.1 (Nat.le_zero.1 hb)]
    cases c <;> rfl
  | succ b ih =>
    cases c with
    | zero =>
      rw [List.length_eq_zero_iff.1 (Nat.le_zero.1 hc)]
      rfl
    | succ c =>
      have hstart := length_dropWhile_le isBlank t
      rw [readFronts, readFronts]
      split
      · rfl
      · split
        · rfl
        · rename_i hread
          have hrest := length_lt_of_readFront hread
          rw [ih (by omega) (by omega : _ ≤ c)]

/-- White space before the first document is skipped. -/
theorem readFronts_blank {w : Text} (hw : ∀ c ∈ w, isBlank c = true) (t : Text) :
    readFronts (w ++ t).length (w ++ t) = readFronts t.length t := by
  have hskip (b : Nat) : readFronts b (w ++ t) = readFronts b t := by
    cases b with
    | zero => rfl
    | succ b => rw [readFronts, readFronts, List.dropWhile_append_of_pos hw]
  rw [hskip]
  exact readFronts_bound (by simp) le_rfl

/-- The first document and those behind it. -/
theorem readFronts_cons {t start rest : Text} {d : Json} (hstart : t.dropWhile isBlank = start)
    (h : readFront start = .ok (d, rest)) :
    readFronts t.length t =
      (d :: (readFronts rest.length rest).1, (readFronts rest.length rest).2) := by
  have hrest := length_lt_of_readFront h
  have hlength := length_dropWhile_le isBlank t
  rw [hstart] at hlength
  obtain ⟨bound, hbound⟩ := Nat.exists_eq_succ_of_ne_zero (by omega : t.length ≠ 0)
  rw [hbound, readFronts, hstart]
  split
  · simp at hrest
  · rw [h]
    dsimp only
    rw [readFronts_bound (by omega : _ ≤ bound) le_rfl]

/-- No document is read where the first one is at fault. -/
theorem readFronts_fault {t start : Text} {fault : Fault Nat} (hstart : t.dropWhile isBlank = start)
    (hne : start ≠ []) (h : readFront start = .error fault) :
    readFronts t.length t = ([], some fault) := by
  cases t with
  | nil => exact absurd hstart.symm hne
  | cons c t =>
    rw [List.length_cons, readFronts, hstart]
    split
    · exact absurd rfl hne
    · rw [h]

/-- White space ends the last document of a text. -/
theorem readFronts_append {s u : Text} (hu : StartsBlank u) {documents : List Json}
    (h : readFronts s.length s = (documents, none)) :
    readFronts (s ++ u).length (s ++ u) =
      (documents ++ (readFronts u.length u).1, (readFronts u.length u).2) := by
  -- The induction is on the length of the text, since each document is read from a shorter one.
  induction hn : s.length using Nat.strong_induction_on generalizing s documents with
  | _ n ih =>
    cases hstart : s.dropWhile isBlank with
    | nil =>
      have hblank : ∀ c ∈ s, isBlank c = true := List.dropWhile_eq_nil_iff.1 hstart
      have hnone := readFronts_blank hblank []
      rw [List.append_nil, h] at hnone
      cases hnone
      exact readFronts_blank hblank u
    | cons c start =>
      cases hread : readFront (c :: start) with
      | error fault =>
        rw [readFronts_fault hstart (List.cons_ne_nil _ _) hread] at h
        cases h
      | ok read =>
        obtain ⟨d, rest⟩ := read
        have hrest := length_lt_of_readFront hread
        have hlength := length_dropWhile_le isBlank s
        rw [readFronts_cons hstart hread] at h
        obtain ⟨rfl, hfault⟩ := Prod.mk.inj h
        have hlonger : (s ++ u).dropWhile isBlank = c :: start ++ u := by
          rw [List.dropWhile_append, hstart]
          rfl
        rw [readFronts_cons hlonger (readFront_append hu hread),
          ih rest.length (by rw [hstart] at hlength; omega) (Prod.ext rfl hfault) rfl]
        rfl

/-! ### Texts -/

/-- The documents of two texts with white space between them, if the first text can be read. The
fault of the second text stays, and is reported at its place in the whole. -/
theorem decodeAll_append {s w : Text} (hs : (decodeAll s).2 = none) (hne : w ≠ [])
    (hw : ∀ c ∈ w, isBlank c = true) (t : Text) :
    (decodeAll (s ++ w ++ t)).1 = (decodeAll s).1 ++ (decodeAll t).1 ∧
      ∃ fault : Option (Fault Nat), (decodeAll t).2 = fault.map (locate t) ∧
        (decodeAll (s ++ w ++ t)).2 = fault.map (locate (s ++ w ++ t)) := by
  obtain ⟨c, v, rfl⟩ := List.exists_cons_of_ne_nil hne
  have hu : StartsBlank (c :: v ++ t) := ⟨c, v ++ t, rfl, hw c List.mem_cons_self⟩
  have hread : readFronts s.length s = ((decodeAll s).1, none) :=
    Prod.ext rfl (Option.map_eq_none_iff.1 hs)
  have hwhole := readFronts_append hu hread
  rw [readFronts_blank hw, ← List.append_assoc] at hwhole
  refine ⟨?_, (readFronts t.length t).2, rfl, ?_⟩
  · rw [decodeAll, hwhole]
    rfl
  · rw [decodeAll, hwhole]

end JsonLisp.Json
