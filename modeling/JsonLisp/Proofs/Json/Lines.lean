import JsonLisp.Proofs.Except
import JsonLisp.Proofs.Json.Float

/-!
# Documents on lines

The text of a document has no control characters, and so no line breaks: those in texts and keys are
escaped. Lines that are written one after the other are found again at the line breaks.

## Main definitions

* `Text.Printable`: texts without control characters.

## Main results

* `Text.splitOn_lines`: lines one after the other, taken apart again.
* `Json.printable_of_write`: what a document is written as.
-/

namespace JsonLisp

namespace Text

/-- No code point stands before the space. -/
def Printable (t : Text) : Prop := ∀ c ∈ t, space ≤ c

instance (t : Text) : Decidable t.Printable :=
  inferInstanceAs (Decidable (∀ c ∈ t, space ≤ c))

@[simp] theorem printable_nil : Printable [] := fun _ h => absurd h List.not_mem_nil

@[simp] theorem printable_cons {c : CodePoint} {t : Text} :
    Printable (c :: t) ↔ space ≤ c ∧ t.Printable := List.forall_mem_cons

@[simp] theorem printable_append {s t : Text} :
    Printable (s ++ t) ↔ s.Printable ∧ t.Printable := List.forall_mem_append

theorem Printable.newline_not_mem {t : Text} (h : t.Printable) : newline ∉ t := by
  intro hmem
  have hspace : space ≤ newline := h newline hmem
  revert hspace
  decide

theorem printable_join {separator : Text} (hseparator : separator.Printable) {ts : List Text}
    (h : ∀ t ∈ ts, t.Printable) : (join separator ts).Printable := by
  induction ts with
  | nil => exact printable_nil
  | cons t ts ih =>
    rw [List.forall_mem_cons] at h
    cases ts with
    | nil => simpa [join] using h.1
    | cons u ts =>
      change (t ++ (separator ++ join separator (u :: ts))).Printable
      rw [printable_append, printable_append]
      exact ⟨h.1, hseparator, ih h.2⟩

/-! ### Lines -/

theorem splitOn_append_cons {c : CodePoint} {piece : Text} (h : c ∉ piece) (rest : Text) :
    splitOn c (piece ++ c :: rest) = piece :: splitOn c rest := by
  induction piece with
  | nil => simp [splitOn]
  | cons d piece ih =>
    have hd : d ≠ c := fun heq => h (by simp [heq])
    have hpiece : c ∉ piece := fun hmem => h (by simp [hmem])
    simp [splitOn, hd, ih hpiece]

/-- Behind the last line there is an empty piece. -/
theorem splitOn_lines {texts : List Text} (h : ∀ t ∈ texts, newline ∉ t) :
    splitOn newline (texts.flatMap (· ++ [newline])) = texts ++ [[]] := by
  induction texts with
  | nil => rfl
  | cons t texts ih =>
    rw [List.forall_mem_cons] at h
    rw [List.flatMap_cons, List.append_assoc, List.singleton_append, splitOn_append_cons h.1,
      ih h.2, List.cons_append]

end Text

namespace Json

open Text (Printable)

theorem printable_of_isDigit {ds : Text} (h : AllDigits ds) : ds.Printable := by
  intro c hc
  have hdigit : 48 ≤ c ∧ c ≤ 57 := by simpa [Text.isDigit] using h c hc
  exact le_trans (by decide) hdigit.1

/-! ### Texts -/

/-- All control characters have an escape. -/
theorem printable_escapeChar (c : CodePoint) : (escapeChar c).Printable := by
  by_cases hspace : 32 ≤ c
  · unfold escapeChar
    split
    · decide
    · split
      · decide
      · exact Text.printable_cons.2 ⟨hspace, Text.printable_nil⟩
  · have hescapes : ∀ c < 32, (escapeChar c).Printable := by decide
    exact hescapes c (Nat.lt_of_not_le hspace)

theorem printable_quote (t : Text) : (quote t).Printable := by
  have hinside : Printable (t.flatMap escapeChar) := by
    intro d hd
    obtain ⟨c, -, hd⟩ := List.mem_flatMap.1 hd
    exact printable_escapeChar c d hd
  have hmark : Text.space ≤ 34 := by decide
  simp [quote, hinside, hmark]

/-! ### Numbers -/

theorem Spelling.printable {s : Spelling} (hs : s.Valid) : s.text.Printable := by
  have hpoint : (pointPart s.fraction).Printable := by
    have hdigits := printable_of_isDigit hs.fraction
    revert hdigits
    cases s.fraction with
    | nil => exact id
    | cons c ds => exact fun hdigits => Text.printable_cons.2 ⟨by decide, hdigits⟩
  have hexponent : (exponentPart s.exponent).Printable := by
    cases he : s.exponent with
    | none => exact Text.printable_nil
    | some e =>
      have hsign : ∀ b : Bool, Text.space ≤ if b then 45 else 43 := by decide
      have hdigits := printable_of_isDigit (hs.exponent e he).2
      exact Text.printable_cons.2 ⟨by decide, Text.printable_cons.2 ⟨hsign e.1, hdigits⟩⟩
  have hmagnitude : s.magnitude.Printable := by
    rw [magnitude, Text.printable_append, Text.printable_append]
    exact ⟨printable_of_isDigit hs.whole.digits, hpoint, hexponent⟩
  unfold text
  split
  · exact Text.printable_cons.2 ⟨by decide, hmagnitude⟩
  · exact hmagnitude

/-! ### Documents -/

theorem printable_bracketed {opening closing : CodePoint} (hopening : Text.space ≤ opening)
    (hclosing : Text.space ≤ closing) {ts : List Text} (h : ∀ t ∈ ts, t.Printable) :
    (bracketed opening closing ts).Printable := by
  have hcomma : comma.Printable := by decide
  simp [bracketed, Text.printable_join hcomma h, hopening, hclosing]

mutual

theorem printable_of_write : ∀ (d : Json) {t : Text}, d.write = .ok t → t.Printable
  | .null => fun h => by
    cases h
    decide
  | .bool b => fun h => by
    cases h
    cases b <;> decide
  | .int n => fun h => by
    obtain ⟨s, rfl, hs⟩ := exists_spells_writeInt h
    exact Spelling.printable hs.valid
  | .float x => fun h => by
    obtain ⟨s, rfl, hs⟩ := exists_spells_writeFloat h
    exact Spelling.printable hs.valid
  | .text _ => fun h => by
    cases h
    exact printable_quote _
  | .list items => fun h => by
    obtain ⟨ts, hts, h⟩ := exists_of_bind_eq_ok h
    cases h
    exact printable_bracketed (by decide) (by decide) (printable_of_writeItems items hts)
  | .object members => fun h => by
    obtain ⟨ts, hts, h⟩ := exists_of_bind_eq_ok h
    cases h
    exact printable_bracketed (by decide) (by decide) (printable_of_writeMembers members hts)

theorem printable_of_writeItems : ∀ (items : List Json) {ts : List Text},
    writeItems items = .ok ts → ∀ t ∈ ts, t.Printable
  | [] => fun h => by
    cases h
    exact fun t ht => absurd ht List.not_mem_nil
  | d :: rest => fun h => by
    obtain ⟨t, ht, h⟩ := exists_of_bind_eq_ok h
    obtain ⟨ts, hts, h⟩ := exists_of_bind_eq_ok h
    cases h
    exact List.forall_mem_cons.2 ⟨printable_of_write d ht, printable_of_writeItems rest hts⟩

theorem printable_of_writeMembers : ∀ (members : List (Text × Json)) {ts : List Text},
    writeMembers members = .ok ts → ∀ t ∈ ts, t.Printable
  | [] => fun h => by
    cases h
    exact fun t ht => absurd ht List.not_mem_nil
  | (key, d) :: rest => fun h => by
    obtain ⟨t, ht, h⟩ := exists_of_bind_eq_ok h
    obtain ⟨ts, hts, h⟩ := exists_of_bind_eq_ok h
    cases h
    refine List.forall_mem_cons.2 ⟨?_, printable_of_writeMembers rest hts⟩
    rw [Text.printable_append, Text.printable_cons]
    exact ⟨printable_quote key, by decide, printable_of_write d ht⟩

end

end Json

end JsonLisp
