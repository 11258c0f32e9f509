import JsonLisp.Proofs.Json.Extension
import JsonLisp.Proofs.Simulation.Requests
import JsonLisp.ReadLoop
import Mathlib.Data.List.DropRight

/-!
# Texts of one form

A text may be read as one form or as a sequence of forms. The two readings differ in the white space
that they allow at the ends of the text: that of JSON for one form, any white space for a sequence.
Where both readings apply they give the same form, and the same evaluation.

## Main definitions

* `Json.Solid`: a text without white space at its ends.

## Main statements

* `Json.Grammar.Denotes.solid`: the texts of documents.
* `Json.decode_eq_ok_iff_decodeAll`: one document and sequences of documents.
* `evalText_singleForm`: the evaluation of a text of one form.
-/

namespace JsonLisp

namespace Json

open Text (isBlank isDigit)
open Grammar

/-! ### The ends of a document -/

/-- The text starts and ends with something else than white space. -/
structure Solid (t : Text) : Prop where
  first : ∃ c, t.head? = some c ∧ isBlank c = false
  last : ∃ c, t.getLast? = some c ∧ isBlank c = false

theorem isBlank_of_isSpace {c : CodePoint} (h : isSpace c = true) : isBlank c = true := by
  rcases isSpace_iff.1 h with rfl | rfl | rfl | rfl <;> rfl

theorem isBlank_of_isDigit {c : CodePoint} (h : isDigit c = true) : isBlank c = false := by
  by_contra hblank
  rw [Bool.not_eq_false] at hblank
  exact Bool.false_ne_true ((isBlank_bounds hblank).1.symm.trans h)

/-- A text between two marks. -/
theorem solid_between {left right : CodePoint} (hleft : isBlank left = false)
    (hright : isBlank right = false) (t : Text) : Solid (left :: (t ++ [right])) :=
  ⟨⟨left, rfl, hleft⟩, right, by rw [← List.cons_append, List.getLast?_concat], hright⟩

/-- The text ends with a digit. -/
def EndsDigit (t : Text) : Prop := ∃ c, t.getLast? = some c ∧ isDigit c = true

theorem EndsDigit.append {t : Text} (h : EndsDigit t) (s : Text) : EndsDigit (s ++ t) := by
  obtain ⟨c, hlast, hc⟩ := h
  exact ⟨c, by rw [List.getLast?_append, hlast]; rfl, hc⟩

theorem AllDigits.endsDigit {ds : Text} (h : AllDigits ds) (hne : ds ≠ []) : EndsDigit ds :=
  ⟨ds.getLast hne, List.getLast?_eq_some_getLast hne, h _ (List.getLast_mem hne)⟩

theorem Grammar.LiteralOf.endsDigit {s : Text} {l : Literal} (h : LiteralOf s l) : EndsDigit s := by
  obtain @⟨sign, whole, point, power, _, _, _, -, hwhole, hpoint, hpower⟩ := h
  refine EndsDigit.append ?_ sign
  cases hpower with
  | power _ _ hne hdigits =>
    exact (((hdigits.endsDigit hne).append (_ :: _)).append point).append whole
  | absent =>
    rw [List.append_nil]
    cases hpoint with
    | point hne hdigits => exact ((hdigits.endsDigit hne).append [0x2E]).append whole
    | absent =>
      rw [List.append_nil]
      exact hwhole.digits.endsDigit hwhole.ne_nil

theorem Grammar.Numeral.solid {t : Text} {d : Json} (h : Numeral t d) : Solid t := by
  obtain ⟨l, hl, -⟩ := h.exists_literal
  obtain ⟨c, hlast, hc⟩ := hl.endsDigit
  refine ⟨?_, c, hlast, isBlank_of_isDigit hc⟩
  obtain ⟨c, u, hdigit, rfl | rfl⟩ := hl.exists_digit
  · exact ⟨c, rfl, isBlank_of_isDigit hdigit⟩
  · exact ⟨0x2D, rfl, rfl⟩

/-- White space around a document is no part of it. -/
theorem Grammar.Denotes.solid {t : Text} {d : Json} (h : Denotes t (.value d)) : Solid t := by
  cases h with
  | nullWord => exact ⟨⟨_, rfl, rfl⟩, _, rfl, rfl⟩
  | trueWord => exact ⟨⟨_, rfl, rfl⟩, _, rfl, rfl⟩
  | falseWord => exact ⟨⟨_, rfl, rfl⟩, _, rfl, rfl⟩
  | number h => exact h.solid
  | string h =>
    obtain ⟨-, -⟩ := h
    exact solid_between rfl rfl _
  | emptyArray | array | emptyObject | object => exact solid_between rfl rfl _

/-! ### White space at the ends of a text -/

section Ends

variable {v s w : Text}

theorem Solid.dropWhile_eq (hs : Solid s) (hv : ∀ c ∈ v, isBlank c = true) (w : Text) :
    (v ++ (s ++ w)).dropWhile isBlank = s ++ w := by
  obtain ⟨c, hfirst, hc⟩ := hs.first
  obtain ⟨u, rfl⟩ := List.head?_eq_some_iff.1 hfirst
  rw [List.dropWhile_append_of_pos hv, List.cons_append, List.dropWhile_cons_of_neg (by simp [hc])]

theorem Solid.takeWhile_eq (hs : Solid s) (hv : ∀ c ∈ v, isBlank c = true) (w : Text) :
    (v ++ (s ++ w)).takeWhile isBlank = v := by
  have hwhole := List.takeWhile_append_dropWhile (p := isBlank) (l := v ++ (s ++ w))
  rw [hs.dropWhile_eq hv] at hwhole
  exact List.append_cancel_right hwhole

theorem Solid.rtakeWhile_eq (hs : Solid s) (hw : ∀ c ∈ w, isBlank c = true) (v : Text) :
    (v ++ (s ++ w)).rtakeWhile isBlank = w := by
  obtain ⟨c, hlast, hc⟩ := hs.last
  obtain ⟨u, rfl⟩ := List.getLast?_eq_some_iff.1 hlast
  have hreverse : ∀ c ∈ w.reverse, isBlank c = true := fun c hc => hw c (List.mem_reverse.1 hc)
  rw [List.rtakeWhile, List.reverse_append, List.reverse_append, List.append_assoc,
    List.takeWhile_append_of_pos hreverse, List.reverse_concat, List.cons_append,
    List.takeWhile_cons_of_neg (by simp [hc]), List.append_nil, List.reverse_reverse]

end Ends

/-! ### One document -/

theorem readFronts_blankText {t : Text} (h : ∀ c ∈ t, isBlank c = true) :
    readFronts t.length t = ([], none) := by
  have hnone := readFronts_blank h []
  rwa [List.append_nil] at hnone

/-- Only white space holds no document and no fault. -/
theorem isBlank_of_readFronts {t : Text} (h : readFronts t.length t = ([], none)) :
    ∀ c ∈ t, isBlank c = true := by
  rw [← List.dropWhile_eq_nil_iff]
  by_contra hne
  cases hread : readFront (t.dropWhile isBlank) with
  | ok read =>
    rw [readFronts_cons rfl hread] at h
    cases h
  | error fault =>
    rw [readFronts_fault rfl hne hread] at h
    cases h

theorem decodeAll_eq_ok_iff {t : Text} {documents : List Json} :
    decodeAll t = (documents, none) ↔ readFronts t.length t = (documents, none) := by
  unfold decodeAll
  generalize readFronts t.length t = read
  obtain ⟨values, fault⟩ := read
  simp

theorem endsNumber_of_blank {w : Text} (h : ∀ c ∈ w, isBlank c = true) : EndsNumber w := by
  cases w with
  | nil => exact nofun
  | cons c w => exact StartsBlank.endsNumber ⟨c, w, rfl, h c List.mem_cons_self⟩

/-- White space, a document, and a rest that does not continue it. -/
theorem readFronts_document {w s rest : Text} {d : Json} (hw : ∀ c ∈ w, isBlank c = true)
    (hs : Denotes s (.value d)) (hrest : d.IsNumber → EndsNumber rest) :
    readFronts (w ++ (s ++ rest)).length (w ++ (s ++ rest)) =
      (d :: (readFronts rest.length rest).1, (readFronts rest.length rest).2) := by
  have hread : readFront (s ++ rest) = .ok (d, rest) :=
    hs.parses.2 hrest (by rw [List.length_append]; omega)
  exact readFronts_cons (hs.solid.dropWhile_eq hw rest) hread

theorem decodeAll_of_denotes {v s w : Text} {d : Json} (hv : ∀ c ∈ v, isBlank c = true)
    (hs : Denotes s (.value d)) (hw : ∀ c ∈ w, isBlank c = true) :
    decodeAll (v ++ (s ++ w)) = ([d], none) := by
  rw [decodeAll_eq_ok_iff, readFronts_document hv hs fun _ => endsNumber_of_blank hw,
    readFronts_blankText hw]

/-- A text with a single document is that document with white space around it. -/
theorem exists_denotes_of_decodeAll {t : Text} {d : Json} (h : decodeAll t = ([d], none)) :
    ∃ v s w, t = v ++ (s ++ w) ∧ (∀ c ∈ v, isBlank c = true) ∧ Denotes s (.value d) ∧
      ∀ c ∈ w, isBlank c = true := by
  rw [decodeAll_eq_ok_iff] at h
  have hne : t.dropWhile isBlank ≠ [] := fun hnil => by
    rw [readFronts_blankText (List.dropWhile_eq_nil_iff.1 hnil)] at h
    cases h
  cases hread : readFront (t.dropWhile isBlank) with
  | error fault =>
    rw [readFronts_fault rfl hne hread] at h
    cases h
  | ok read =>
    obtain ⟨d', rest⟩ := read
    rw [readFronts_cons rfl hread] at h
    obtain ⟨hdocuments, hfault⟩ := Prod.mk.inj h
    obtain ⟨rfl, hrest⟩ := List.cons.inj hdocuments
    obtain ⟨s, hs, hdenotes⟩ := exists_denotes_of_readFront hread
    refine ⟨t.takeWhile isBlank, s, rest, ?_, fun c hc => List.mem_takeWhile_imp hc, hdenotes,
      isBlank_of_readFronts (Prod.ext hrest hfault)⟩
    rw [← hs, List.takeWhile_append_dropWhile]

/-- A text is decoded as one document if it holds a single one in a sequence, and the white space at
both ends is that of JSON. -/
theorem decode_eq_ok_iff_decodeAll {t : Text} {d : Json} :
    decode t = .ok d ↔ decodeAll t = ([d], none) ∧
      (∀ c ∈ t.takeWhile isBlank, isSpace c = true) ∧
      ∀ c ∈ t.rtakeWhile isBlank, isSpace c = true := by
  rw [decode_eq_ok_iff_denotes]
  refine ⟨fun h => ?_, fun ⟨hall, hleft, hright⟩ => ?_⟩
  · cases h with
    | @element v s w _ hv hs hw =>
      have hspaceLeft : ∀ c ∈ v, isSpace c = true := fun c hc => isSpace_iff.2 (hv c hc)
      have hspaceRight : ∀ c ∈ w, isSpace c = true := fun c hc => isSpace_iff.2 (hw c hc)
      have hleft : ∀ c ∈ v, isBlank c = true := fun c hc => isBlank_of_isSpace (hspaceLeft c hc)
      have hright : ∀ c ∈ w, isBlank c = true := fun c hc => isBlank_of_isSpace (hspaceRight c hc)
      rw [hs.solid.takeWhile_eq hleft, hs.solid.rtakeWhile_eq hright]
      exact ⟨decodeAll_of_denotes hleft hs hright, hspaceLeft, hspaceRight⟩
  · obtain ⟨v, s, w, rfl, hv, hs, hw⟩ := exists_denotes_of_decodeAll hall
    rw [hs.solid.takeWhile_eq hv] at hleft
    rw [hs.solid.rtakeWhile_eq hw] at hright
    exact .element (fun c hc => isSpace_iff.1 (hleft c hc)) hs
      fun c hc => isSpace_iff.1 (hright c hc)

end Json

/-! ### Evaluation -/

namespace Session

/-- The sequence of a single form is the form. -/
theorem evalText_of_decodeAll {text : Text} {d : Json} (h : Json.decodeAll text = ([d], none))
    (limits : Limits) : evalText limits text = evalTop limits (.ofJson d) := by
  rw [Simulation.evalText_eq, h]
  exact bind_pure _

theorem evalOne_of_decode {text : Text} {d : Json} (h : Json.decode text = .ok d)
    (limits : Limits) : evalOne limits text = evalTop limits (.ofJson d) := by
  rw [evalOne, readOne, h]
  rfl

end Session

open Session (evalText evalOne evalTop runPrelude)

/-- A text is read as one form exactly if it is read completely as a sequence of that one form and
the white space at its ends consists of spaces, tabs, line feeds and carriage returns. Then a
program, a prelude and a line of this text have the same outcome in every state, namely that of the
form. -/
theorem evalText_singleForm (text : Text) (d : Json) :
    (Json.decode text = .ok d ↔ Json.decodeAll text = ([d], none) ∧
      (∀ c ∈ text.takeWhile Text.isBlank, Json.isSpace c = true) ∧
      ∀ c ∈ text.rtakeWhile Text.isBlank, Json.isSpace c = true) ∧
    (Json.decode text = .ok d → ∀ limits s,
      evalText limits text s = evalTop limits (.ofJson d) s ∧
      evalOne limits text s = evalTop limits (.ofJson d) s ∧
      ReadLoop.evalLine limits text s = (do
        let value ← evalTop limits (.ofJson d)
        Run.ofExcept value.encode) s ∧
      ∀ surroundings files, runPrelude limits surroundings files (.text text) s =
        Session.Start.ofRun (do let _ ← evalTop limits (.ofJson d)) s) := by
  refine ⟨Json.decode_eq_ok_iff_decodeAll, fun h limits s => ?_⟩
  have hall := (Json.decode_eq_ok_iff_decodeAll.1 h).1
  have htext := Session.evalText_of_decodeAll hall limits
  have hone := Session.evalOne_of_decode h limits
  refine ⟨by rw [htext], by rw [hone], ?_, fun surroundings files => ?_⟩
  · rw [ReadLoop.evalLine, hone]
  · rw [runPrelude, htext]

/-- A list with a space before it and a line feed behind it is one form in both readings. With a
no-break space behind it, it is one only as a sequence. -/
theorem evalText_singleForm_noBreakSpace :
    let list := Text.ofString " [1]"
    let d := Json.list [.int 1]
    (∀ limits s, evalText limits (list ++ [Text.newline]) s =
      evalOne limits (list ++ [Text.newline]) s) ∧
      Json.decodeAll (list ++ [0xA0]) = ([d], none) ∧
      ∀ d, Json.decode (list ++ [0xA0]) ≠ .ok d := by
  intro list d
  refine ⟨fun limits s => ?_, rfl, fun d h => ?_⟩
  · obtain ⟨htext, hone, -⟩ := (evalText_singleForm (list ++ [Text.newline]) d).2 rfl limits s
    rw [htext, hone]
  · obtain ⟨-, -, hright⟩ := (evalText_singleForm (list ++ [0xA0]) d).1.1 h
    exact absurd (hright 0xA0 (by decide +kernel)) (by decide)

end JsonLisp
