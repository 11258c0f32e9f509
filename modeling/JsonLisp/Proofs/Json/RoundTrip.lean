import JsonLisp.Proofs.Json.Float
import JsonLisp.Proofs.Json.Sound
import JsonLisp.Proofs.Json.Strings
import Mathlib.Tactic.IntervalCases

/-!
# Reading documents back

What is written is read back as the same document: the text of a document starts and ends where
the reader expects it to, and twice its length is a bound on the steps that reading takes.

## Main definitions

* `Json.ReadsBack`: documents that are read from their text, whatever ends it.
* `Json.readsBack`: every sound document is read back.
* `Json.decode_of_write`: a text that a sound document is written as is decoded to the document.
-/

namespace JsonLisp.Json

/-! ### Distinct keys -/

theorem putMember_of_not_mem {members : List (Text × Json)} {key : Text} (value : Json)
    (h : key ∉ members.map Prod.fst) : putMember members key value = members ++ [(key, value)] := by
  induction members with
  | nil => rfl
  | cons first rest ih =>
    obtain ⟨k, v⟩ := first
    rw [List.map_cons, List.mem_cons, not_or] at h
    rw [putMember, if_neg (Ne.symm h.1), ih h.2, List.cons_append]

theorem ofMembers_eq {members : List (Text × Json)} (h : (members.map Prod.fst).Nodup) :
    ofMembers members = members := by
  suffices hfold : ∀ known : List (Text × Json), ((known ++ members).map Prod.fst).Nodup →
      members.foldl (fun members pair => putMember members pair.1 pair.2) known =
        known ++ members from hfold [] h
  clear h
  -- The members that were put so far stay in front, so they are carried through the induction.
  induction members with
  | nil => intro known _; simp
  | cons m rest ih =>
    intro known h
    have hnew : m.1 ∉ known.map Prod.fst := by
      intro hknown
      rw [List.map_append, List.map_cons] at h
      exact (List.nodup_append.1 h).2.2 m.1 hknown m.1 List.mem_cons_self rfl
    rw [List.foldl_cons, putMember_of_not_mem m.2 hnew, ih _ (by simpa using h)]
    simp

/-! ### First code points -/

/-- The text starts with what can start a document. -/
def StartsDocument (t : Text) : Prop :=
  ∃ c rest, t = c :: rest ∧ isSpace c = false ∧ c ≠ 93

theorem StartsDocument.append {t : Text} (h : StartsDocument t) (rest : Text) :
    StartsDocument (t ++ rest) := by
  obtain ⟨c, r, rfl, hspace, hclose⟩ := h
  exact ⟨c, r ++ rest, rfl, hspace, hclose⟩

theorem StartsDocument.skipSpace_eq {t : Text} (h : StartsDocument t) : skipSpace t = t := by
  obtain ⟨c, rest, rfl, hspace, -⟩ := h
  exact List.dropWhile_cons_of_neg (by simp [hspace])

/-- No digit is white space, a quote, a bracket or a brace. -/
theorem isDigit_bounds {c : CodePoint} (h : Text.isDigit c = true) :
    isSpace c = false ∧ c ≠ 34 ∧ c ≠ 91 ∧ c ≠ 93 ∧ c ≠ 123 := by
  obtain ⟨hlow, hhigh⟩ : 48 ≤ c ∧ c ≤ 57 := by
    simpa [Text.isDigit] using h
  interval_cases c <;> decide

theorem Spelling.startsDocument {s : Spelling} (hs : s.Valid) : StartsDocument s.text := by
  obtain ⟨c, t, hdigit, htext⟩ := Spelling.text_append_eq hs []
  obtain ⟨hspace, -, -, hclose, -⟩ := isDigit_bounds hdigit
  rw [List.append_nil] at htext
  rcases htext with htext | htext
  · exact ⟨c, t, htext, hspace, hclose⟩
  · exact ⟨45, c :: t, htext, rfl, by decide⟩

theorem startsDocument_of_write {d : Json} {t : Text} (h : d.write = .ok t) : StartsDocument t := by
  cases d with
  | null =>
    cases h
    exact ⟨_, _, rfl, by decide, by decide⟩
  | bool b =>
    cases h
    cases b
    · exact ⟨_, _, rfl, by decide, by decide⟩
    · exact ⟨_, _, rfl, by decide, by decide⟩
  | int n =>
    obtain ⟨s, rfl, hs⟩ := exists_spells_writeInt h
    exact Spelling.startsDocument hs.valid
  | float x =>
    obtain ⟨s, rfl, hs⟩ := exists_spells_writeFloat h
    exact Spelling.startsDocument hs.valid
  | text t =>
    cases h
    exact ⟨_, _, rfl, by decide, by decide⟩
  | list items =>
    obtain ⟨ts, -, h⟩ := exists_of_bind_eq_ok h
    cases h
    exact ⟨_, _, rfl, by decide, by decide⟩
  | object members =>
    obtain ⟨ts, -, h⟩ := exists_of_bind_eq_ok h
    cases h
    exact ⟨_, _, rfl, by decide, by decide⟩

/-! ### One step of the reader -/

section Steps

variable {steps : Nat} {d : Json} {t inside after rest : Text}

theorem readValue_text (steps : Nat) (t rest : Text) :
    readValue (steps + 1) (quote t ++ rest) = .ok (.text t, rest) := by
  rw [quote_append, readValue, readString_flatMap]
  rfl

/-- A digit, or a sign and a digit, starts a number. -/
theorem readValue_digit {c : CodePoint} {t u : Text} (hdigit : Text.isDigit c = true)
    (ht : t = c :: u ∨ t = 45 :: c :: u) (steps : Nat) :
    readValue (steps + 1) t = readNumber t := by
  rw [← readScalar_digit hdigit ht]
  obtain ⟨-, hquote, hbracket, -, hbrace⟩ := isDigit_bounds hdigit
  rcases ht with rfl | rfl
  · rw [readValue]
    · exact fun _ h => hquote (List.cons.inj h).1
    · exact fun _ h => hbracket (List.cons.inj h).1
    · exact fun _ h => hbrace (List.cons.inj h).1
  · rfl

theorem readValue_spelling {s : Spelling} (hs : s.Spells d) (hrest : EndsNumber rest)
    (steps : Nat) : readValue (steps + 1) (s.text ++ rest) = .ok (d, rest) := by
  obtain ⟨c, t, hdigit, htext⟩ := Spelling.text_append_eq hs.valid rest
  rw [readValue_digit hdigit htext, ← readScalar_digit hdigit htext, readScalar_spelling hs hrest]

theorem readValue_list {items : List Json} (hopen : skipSpace inside = t) (hstart : StartsDocument t)
    (h : readItems steps t = .ok (items, after)) :
    readValue (steps + 1) (91 :: inside) = .ok (.list items, after) := by
  rw [readValue, hopen]
  obtain ⟨c, rest, rfl, -, hclose⟩ := hstart
  split
  · rename_i heq
    cases heq
    exact absurd rfl hclose
  · rw [h]
    rfl

theorem readValue_object {members : List (Text × Json)} (hopen : skipSpace inside = 34 :: t)
    (h : readMembers steps (34 :: t) = .ok (members, after)) :
    readValue (steps + 1) (123 :: inside) = .ok (.object (ofMembers members), after) := by
  rw [readValue, hopen]
  change (readMembers steps (34 :: t) >>= fun read => _) = _
  rw [h]
  rfl

/-- One item, up to what follows it. -/
theorem readItems_eq (h : readValue steps t = .ok (d, after)) :
    readItems (steps + 1) t =
      match skipSpace after with
      | 93 :: rest => .ok ([d], rest)
      | 44 :: rest => do
        let (items, after) ← readItems steps (skipSpace rest)
        return (d :: items, after)
      | other => fail .noComma other := by
  rw [readItems, h]
  rfl

/-- One member, up to what follows its value. -/
theorem readMembers_eq {key afterKey : Text} (hkey : readString t = .ok (key, afterKey))
    (hcolon : skipSpace afterKey = 58 :: inside)
    (h : readValue steps (skipSpace inside) = .ok (d, after)) :
    readMembers (steps + 1) (34 :: t) =
      match skipSpace after with
      | 125 :: rest => .ok ([(key, d)], rest)
      | 44 :: rest => do
        let (members, after) ← readMembers steps (skipSpace rest)
        return ((key, d) :: members, after)
      | other => fail .noComma other := by
  rw [readMembers, hkey]
  simp only [bind, Except.bind, hcolon, h]
  rfl

end Steps

/-! ### Whole documents -/

/-- The document is read from its text, whatever stands behind it that does not continue a number. -/
def ReadsBack (d : Json) : Prop :=
  ∀ ⦃t rest : Text⦄ ⦃steps : Nat⦄, d.write = .ok t → EndsNumber rest → 2 * t.length ≤ steps →
    readValue steps (t ++ rest) = .ok (d, rest)

/-- Commas, brackets and braces end a number. -/
theorem endsNumber_cons {c : CodePoint} (hc : c = 44 ∨ c = 93 ∨ c = 125) (rest : Text) :
    EndsNumber (c :: rest) := by
  rintro d ⟨⟩
  rcases hc with rfl | rfl | rfl <;> decide

theorem join_cons_cons (t u : Text) (ts : List Text) :
    Text.join comma (t :: u :: ts) = t ++ 44 :: Text.join comma (u :: ts) := rfl

/-- Each item takes more than one code point, and so more than one step in two. -/
theorem readItems_join {items : List Json} (hitems : ∀ d ∈ items, d.ReadsBack) {ts : List Text}
    (hwrite : writeItems items = .ok ts) (hne : items ≠ []) (rest : Text) {steps : Nat}
    (hsteps : 2 * (Text.join comma ts).length + 1 ≤ steps) :
    StartsDocument (Text.join comma ts) ∧
      readItems steps (Text.join comma ts ++ 93 :: rest) = .ok (items, rest) := by
  induction items generalizing ts steps with
  | nil => exact absurd rfl hne
  | cons d items ih =>
    obtain ⟨t, ht, h⟩ := exists_of_bind_eq_ok hwrite
    obtain ⟨ts, hts, h⟩ := exists_of_bind_eq_ok h
    cases h
    have hd := hitems d List.mem_cons_self
    have hstart := startsDocument_of_write ht
    obtain ⟨steps, rfl⟩ := Nat.exists_eq_succ_of_ne_zero (by omega : steps ≠ 0)
    cases items with
    | nil =>
      cases hts
      have hjoin : Text.join comma [t] = t := List.append_nil t
      rw [hjoin] at hsteps ⊢
      have hbracket : EndsNumber (93 :: rest) := endsNumber_cons (.inr (.inl rfl)) rest
      rw [readItems_eq (hd ht hbracket (by omega))]
      exact ⟨hstart, rfl⟩
    | cons e items =>
      obtain ⟨u, hu, h⟩ := exists_of_bind_eq_ok hts
      obtain ⟨us, hus, h⟩ := exists_of_bind_eq_ok h
      cases h
      rw [join_cons_cons, List.length_append, List.length_cons] at hsteps
      rw [join_cons_cons]
      obtain ⟨hnext, hlater⟩ := ih (fun d hd => hitems d (List.mem_cons_of_mem _ hd)) hts
        (List.cons_ne_nil _ _) (by omega : _ ≤ steps)
      have hcomma := endsNumber_cons (.inl rfl) (Text.join comma (u :: us) ++ 93 :: rest)
      refine ⟨hstart.append _, ?_⟩
      rw [List.append_assoc, List.cons_append]
      rw [readItems_eq (hd ht hcomma (by omega))]
      change (readItems steps (skipSpace (Text.join comma (u :: us) ++ 93 :: rest)) >>=
        fun read => _) = _
      rw [(hnext.append _).skipSpace_eq, hlater]
      rfl

theorem readMembers_join {members : List (Text × Json)} (hmembers : ∀ m ∈ members, m.2.ReadsBack)
    {ts : List Text} (hwrite : writeMembers members = .ok ts) (hne : members ≠ []) (rest : Text)
    {steps : Nat} (hsteps : 2 * (Text.join comma ts).length + 1 ≤ steps) :
    (Text.join comma ts).head? = some 34 ∧
      readMembers steps (Text.join comma ts ++ 125 :: rest) = .ok (members, rest) := by
  induction members generalizing ts steps with
  | nil => exact absurd rfl hne
  | cons m members ih =>
    obtain ⟨key, d⟩ := m
    obtain ⟨t, ht, h⟩ := exists_of_bind_eq_ok hwrite
    obtain ⟨ts, hts, h⟩ := exists_of_bind_eq_ok h
    cases h
    have hd := hmembers _ List.mem_cons_self
    have hstart := startsDocument_of_write ht
    obtain ⟨steps, rfl⟩ := Nat.exists_eq_succ_of_ne_zero (by omega : steps ≠ 0)
    cases members with
    | nil =>
      cases hts
      have hjoin : Text.join comma [quote key ++ 58 :: t] = quote key ++ 58 :: t := List.append_nil _
      rw [hjoin, List.length_append, List.length_cons] at hsteps
      rw [hjoin, List.append_assoc, List.cons_append]
      have hbrace : EndsNumber (125 :: rest) := endsNumber_cons (.inr (.inr rfl)) rest
      have hvalue := hd ht hbrace (by omega : _ ≤ steps)
      rw [← (hstart.append _).skipSpace_eq] at hvalue
      have hkey := readString_flatMap key (58 :: (t ++ 125 :: rest))
      refine ⟨rfl, ?_⟩
      rw [quote_append, readMembers_eq hkey rfl hvalue]
      rfl
    | cons e members =>
      obtain ⟨u, hu, h⟩ := exists_of_bind_eq_ok hts
      obtain ⟨us, hus, h⟩ := exists_of_bind_eq_ok h
      cases h
      rw [join_cons_cons, List.length_append, List.length_append, List.length_cons,
        List.length_cons] at hsteps
      obtain ⟨hnext, hlater⟩ := ih (fun m hm => hmembers m (List.mem_cons_of_mem _ hm)) hts
        (List.cons_ne_nil _ _) (by omega : _ ≤ steps)
      obtain ⟨v, hv⟩ := List.head?_eq_some_iff.1 hnext
      rw [hv, List.cons_append] at hlater
      have hcomma := endsNumber_cons (.inl rfl) (34 :: (v ++ 125 :: rest))
      refine ⟨rfl, ?_⟩
      have hvalue := hd ht hcomma (by omega : _ ≤ steps)
      rw [← (hstart.append _).skipSpace_eq] at hvalue
      rw [join_cons_cons, hv]
      simp only [List.append_assoc, List.cons_append]
      have hkey := readString_flatMap key (58 :: (t ++ 44 :: 34 :: (v ++ 125 :: rest)))
      rw [quote_append, readMembers_eq hkey rfl hvalue]
      change (readMembers steps (34 :: (v ++ 125 :: rest)) >>= fun read => _) = _
      rw [hlater]
      rfl

theorem bracketed_append (opening closing : CodePoint) (ts : List Text) (rest : Text) :
    bracketed opening closing ts ++ rest = opening :: (Text.join comma ts ++ closing :: rest) := by
  simp [bracketed]

theorem length_bracketed (opening closing : CodePoint) (ts : List Text) :
    (bracketed opening closing ts).length = (Text.join comma ts).length + 2 := by
  simp [bracketed]

theorem ReadsBack.of_succ {d : Json}
    (h : ∀ ⦃t rest : Text⦄ ⦃steps : Nat⦄, d.write = .ok t → EndsNumber rest →
      2 * t.length ≤ steps + 1 → readValue (steps + 1) (t ++ rest) = .ok (d, rest)) :
    d.ReadsBack := by
  intro t rest steps ht hrest hsteps
  obtain ⟨c, u, rfl, -⟩ := startsDocument_of_write ht
  cases steps with
  | zero => simp at hsteps
  | succ steps => exact h ht hrest hsteps

/-- Every sound document is read back: one case for each kind of document. -/
theorem readsBack {d : Json} (hd : d.Sound) : d.ReadsBack := by
  induction hd with
  | null =>
    refine .of_succ fun t rest steps ht _ _ => ?_
    cases ht
    rfl
  | bool b =>
    refine .of_succ fun t rest steps ht _ _ => ?_
    cases ht
    cases b <;> rfl
  | int n =>
    refine .of_succ fun t rest steps ht hrest _ => ?_
    obtain ⟨s, rfl, hs⟩ := exists_spells_writeInt ht
    exact readValue_spelling hs hrest steps
  | float x =>
    refine .of_succ fun t rest steps ht hrest _ => ?_
    obtain ⟨s, rfl, hs⟩ := exists_spells_writeFloat ht
    exact readValue_spelling hs hrest steps
  | text t =>
    refine .of_succ fun t rest steps ht _ _ => ?_
    cases ht
    exact readValue_text steps _ rest
  | @list items _ ih =>
    refine .of_succ fun t rest steps ht _ hsteps => ?_
    obtain ⟨ts, hts, h⟩ := exists_of_bind_eq_ok ht
    cases h
    rw [length_bracketed] at hsteps
    rw [bracketed_append]
    by_cases hne : items = []
    · subst hne
      cases hts
      rfl
    · obtain ⟨hstart, hread⟩ := readItems_join ih hts hne rest (by omega : _ ≤ steps)
      exact readValue_list (hstart.append _).skipSpace_eq (hstart.append _) hread
  | @object members hnodup _ ih =>
    refine .of_succ fun t rest steps ht _ hsteps => ?_
    obtain ⟨ts, hts, h⟩ := exists_of_bind_eq_ok ht
    cases h
    rw [length_bracketed] at hsteps
    rw [bracketed_append]
    by_cases hne : members = []
    · subst hne
      cases hts
      rfl
    · obtain ⟨hstart, hread⟩ := readMembers_join ih hts hne rest (by omega : _ ≤ steps)
      obtain ⟨u, hu⟩ := List.head?_eq_some_iff.1 hstart
      rw [hu, List.cons_append] at hread ⊢
      rw [readValue_object rfl hread, ofMembers_eq hnodup]

/-- The text of a sound document is decoded to the document. -/
theorem decode_of_write {d : Json} (hd : d.Sound) {t : Text} (h : d.write = .ok t) :
    decode t = .ok d := by
  have hread : readValue (2 * t.length + 1) (t ++ []) = .ok (d, []) :=
    readsBack hd h nofun (Nat.le_succ _)
  rw [List.append_nil] at hread
  rw [decode, (startsDocument_of_write h).skipSpace_eq, readFront, hread]
  rfl

end JsonLisp.Json
