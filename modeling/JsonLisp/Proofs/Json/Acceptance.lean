import JsonLisp.Proofs.Json.RoundTrip
import JsonLisp.Proofs.Json.Tokens
import JsonLisp.Session

/-!
# What is decoded

The texts that are decoded are those of the grammar, each with the document that the grammar
gives it, and every other text is refused as malformed.

Soundness is by induction on the steps of the readers, completeness by induction on the phrase.
A phrase is read back before any rest, except that a number has to be ended by it.

## Main statements

* `Json.exists_denotes_of_readFront`: what is read from the front of a text is a value.
* `Json.Grammar.Denotes.parses`: a phrase is read from the front of a text.
* `Json.decode_eq_ok_iff_denotes`: the grammar of decoding.
-/

namespace JsonLisp.Json

open Grammar

/-! ### White space -/

theorem isSpace_iff {c : CodePoint} :
    isSpace c = true ↔ c = 0x20 ∨ c = 0x09 ∨ c = 0x0A ∨ c = 0x0D := by
  simp [isSpace, or_assoc]

theorem exists_blank_skipSpace (t : Text) : ∃ w, Blank w ∧ t = w ++ skipSpace t :=
  ⟨t.takeWhile isSpace, fun c hc => isSpace_iff.1 (List.all_eq_true.1 List.all_takeWhile c hc),
    List.takeWhile_append_dropWhile.symm⟩

theorem Grammar.Blank.skipSpace_append {w : Text} (h : Blank w) (t : Text) :
    skipSpace (w ++ t) = skipSpace t :=
  List.dropWhile_append_of_pos fun c hc => isSpace_iff.2 (h c hc)

theorem Grammar.Blank.endsNumber {w rest : Text} (h : Blank w) (hrest : EndsNumber rest) :
    EndsNumber (w ++ rest) := by
  cases w with
  | nil => exact hrest
  | cons c w =>
    rintro _ ⟨⟩
    rcases h c List.mem_cons_self with rfl | rfl | rfl | rfl <;> decide

/-! ### Soundness -/

/-- What the three readers take with a number of steps is of the grammar. -/
structure TakesPhrases (steps : Nat) : Prop where
  value : ∀ {t d rest}, readValue steps t = .ok (d, rest) →
    ∃ s, t = s ++ rest ∧ Denotes s (.value d)
  items : ∀ {t items rest}, readItems steps t = .ok (items, rest) →
    ∃ s, t = s ++ 0x5D :: rest ∧ Denotes s (.elements items)
  members : ∀ {t pairs rest}, readMembers steps t = .ok (pairs, rest) →
    ∃ s, t = s ++ 0x7D :: rest ∧ Denotes s (.members pairs)

section Soundness

variable {steps : Nat} {t after rest : Text} {d : Json}

theorem ValueStep.exists_denotes (htakes : TakesPhrases steps) (h : ValueStep steps t d rest) :
    ∃ s, t = s ++ rest ∧ Denotes s (.value d) := by
  cases h with
  | text hstring =>
    obtain ⟨s, rfl, hs⟩ := readString_eq_ok_iff.1 hstring
    exact ⟨_, by simp, .string hs⟩
  | @emptyList inside _ hclose =>
    obtain ⟨w, hw, hinside⟩ := exists_blank_skipSpace inside
    rw [hinside, hclose]
    exact ⟨_, by simp, .emptyArray hw⟩
  | @list inside _ _ hitems =>
    obtain ⟨w, hw, hinside⟩ := exists_blank_skipSpace inside
    obtain ⟨s, hs, helements⟩ := htakes.items hitems
    rw [hinside, hs]
    exact ⟨_, by simp, .array (helements.blank_elements hw)⟩
  | @emptyObject inside _ hclose =>
    obtain ⟨w, hw, hinside⟩ := exists_blank_skipSpace inside
    rw [hinside, hclose]
    exact ⟨_, by simp, .emptyObject hw⟩
  | @object inside _ pairs hmembers =>
    obtain ⟨w, hw, hinside⟩ := exists_blank_skipSpace inside
    obtain ⟨s, hs, hpairs⟩ := htakes.members hmembers
    rw [hinside, hs]
    exact ⟨_, by simp, .object (hpairs.blank_members hw) (keeps_ofMembers pairs)⟩
  | scalar hscalar => exact hscalar.exists_denotes

/-- A value is taken with the white space that follows it. -/
theorem TakesPhrases.exists_element (htakes : TakesPhrases steps)
    (h : readValue steps t = .ok (d, after)) :
    ∃ s, t = s ++ skipSpace after ∧ Denotes s (.element d) := by
  obtain ⟨s, rfl, hs⟩ := htakes.value h
  obtain ⟨w, hw, hafter⟩ := exists_blank_skipSpace after
  refine ⟨[] ++ (s ++ w), ?_, .element .nil hs hw⟩
  rw [List.nil_append, List.append_assoc, ← hafter]

theorem ItemsStep.exists_denotes (htakes : TakesPhrases steps) {items : List Json}
    (h : ItemsStep steps t items rest) :
    ∃ s, t = s ++ 0x5D :: rest ∧ Denotes s (.elements items) := by
  cases h with
  | last hvalue hclose =>
    obtain ⟨s, rfl, hs⟩ := htakes.exists_element hvalue
    rw [hclose]
    exact ⟨s, rfl, .lastElement hs⟩
  | @more _ inside _ _ _ hvalue hcomma hitems =>
    obtain ⟨s, rfl, hs⟩ := htakes.exists_element hvalue
    obtain ⟨v, hv, hinside⟩ := exists_blank_skipSpace inside
    obtain ⟨u, hu, hlater⟩ := htakes.items hitems
    rw [hcomma, hinside, hu]
    exact ⟨_, by simp, .moreElements hs (hlater.blank_elements hv)⟩

theorem MemberStep.exists_denotes (htakes : TakesPhrases steps) {key : Text}
    (h : MemberStep steps t key d after) :
    ∃ s, t = s ++ skipSpace after ∧ Denotes s (.member (key, d)) := by
  obtain @⟨_, _, afterKey, inside, _, _, hkey, hcolon, hvalue⟩ := h
  obtain ⟨k, rfl, hk⟩ := readString_eq_ok_iff.1 hkey
  obtain ⟨w, hw, hafterKey⟩ := exists_blank_skipSpace afterKey
  obtain ⟨v, hv, hinside⟩ := exists_blank_skipSpace inside
  obtain ⟨s, hs, helement⟩ := htakes.exists_element hvalue
  rw [hafterKey, hcolon, hinside, hs]
  exact ⟨_, by simp, .member .nil hk hw (helement.blank_element hv)⟩

theorem MembersStep.exists_denotes (htakes : TakesPhrases steps) {pairs : List (Text × Json)}
    (h : MembersStep steps t pairs rest) :
    ∃ s, t = s ++ 0x7D :: rest ∧ Denotes s (.members pairs) := by
  cases h with
  | last hmember hclose =>
    obtain ⟨s, rfl, hs⟩ := hmember.exists_denotes htakes
    rw [hclose]
    exact ⟨s, rfl, .lastMember hs⟩
  | @more _ _ inside _ _ _ hmember hcomma hmembers =>
    obtain ⟨s, rfl, hs⟩ := hmember.exists_denotes htakes
    obtain ⟨v, hv, hinside⟩ := exists_blank_skipSpace inside
    obtain ⟨u, hu, hlater⟩ := htakes.members hmembers
    rw [hcomma, hinside, hu]
    exact ⟨_, by simp, .moreMembers hs (hlater.blank_members hv)⟩

theorem takesPhrases (steps : Nat) : TakesPhrases steps := by
  induction steps using Nat.strongRecOn with
  | ind steps ih =>
    refine ⟨fun h => ?_, fun h => ?_, fun h => ?_⟩
    · obtain ⟨n, rfl, hstep⟩ := exists_valueStep h
      exact hstep.exists_denotes (ih n n.lt_succ_self)
    · obtain ⟨n, rfl, hstep⟩ := exists_itemsStep h
      exact hstep.exists_denotes (ih n n.lt_succ_self)
    · obtain ⟨n, rfl, hstep⟩ := exists_membersStep h
      exact hstep.exists_denotes (ih n n.lt_succ_self)

end Soundness

theorem exists_denotes_of_readFront {t rest : Text} {d : Json} (h : readFront t = .ok (d, rest)) :
    ∃ s, t = s ++ rest ∧ Denotes s (.value d) :=
  (takesPhrases _).value h

/-! ### Completeness -/

def IsNumber : Json → Prop
  | .int _ | .float _ => True
  | _ => False

/-- The value is read from the front of a text; a number only before what ends it. -/
def Reads (t : Text) (d : Json) : Prop :=
  ∀ ⦃rest : Text⦄ ⦃steps : Nat⦄, (d.IsNumber → EndsNumber rest) → 2 * t.length ≤ steps →
    readValue steps (t ++ rest) = .ok (d, rest)

/-- A value between white space. -/
def ReadsElement (t : Text) (d : Json) : Prop :=
  ∃ v s w, t = v ++ (s ++ w) ∧ Blank v ∧ StartsDocument s ∧ Reads s d ∧ Blank w

/-- A quoted key between white space, a colon and a value. -/
def ReadsMember (t : Text) (m : Text × Json) : Prop :=
  ∃ v k w u, t = v ++ 0x22 :: (k ++ 0x22 :: (w ++ 0x3A :: u)) ∧ Blank v ∧
    Quotes (0x22 :: (k ++ [0x22])) m.1 ∧ Blank w ∧ ReadsElement u m.2

/-- What reading a phrase amounts to. The items of a list are read through its closing bracket,
and the members of an object through its closing brace. -/
def Parses (t : Text) : Phrase → Prop
  | .value d => StartsDocument t ∧ Reads t d
  | .element d => ReadsElement t d
  | .elements items => ∀ ⦃rest : Text⦄ ⦃steps : Nat⦄, 2 * t.length + 1 ≤ steps →
      StartsDocument (skipSpace (t ++ 0x5D :: rest)) ∧
        readItems steps (skipSpace (t ++ 0x5D :: rest)) = .ok (items, rest)
  | .member m => ReadsMember t m
  | .members pairs => ∀ ⦃rest : Text⦄ ⦃steps : Nat⦄, 2 * t.length + 1 ≤ steps →
      ∃ u, skipSpace (t ++ 0x7D :: rest) = 0x22 :: u ∧
        readMembers steps (0x22 :: u) = .ok (pairs, rest)

section Completeness

variable {t : Text} {d : Json} {steps : Nat}

theorem parses_value (hstart : StartsDocument t)
    (h : ∀ ⦃rest : Text⦄ ⦃steps : Nat⦄, (d.IsNumber → EndsNumber rest) →
      2 * t.length ≤ steps + 1 → readValue (steps + 1) (t ++ rest) = .ok (d, rest)) :
    Parses t (.value d) := by
  refine ⟨hstart, fun rest steps hrest hsteps => ?_⟩
  obtain ⟨c, u, rfl, -⟩ := hstart
  cases steps with
  | zero => simp at hsteps
  | succ steps => exact h hrest hsteps

theorem startsDocument_numeral (h : Numeral t d) : StartsDocument t := by
  obtain ⟨c, u, hdigit, ht⟩ := h.exists_digit []
  obtain ⟨hspace, -, -, hclose, -⟩ := isDigit_bounds hdigit
  rw [List.append_nil] at ht
  rcases ht with rfl | rfl
  · exact ⟨c, u, rfl, hspace, hclose⟩
  · exact ⟨45, c :: u, rfl, rfl, by decide⟩

theorem isNumber_of_numeral (h : Numeral t d) : d.IsNumber := by
  cases h <;> trivial

theorem readValue_numeral (h : Numeral t d) {rest : Text} (hrest : EndsNumber rest) (steps : Nat) :
    readValue (steps + 1) (t ++ rest) = .ok (d, rest) := by
  obtain ⟨c, u, hdigit, ht⟩ := h.exists_digit rest
  rw [readValue_digit hdigit ht, readNumber_of_numeral h hrest]

/-- An element is read before a comma, a bracket or a brace, through the space in front of it. -/
theorem ReadsElement.exists_readValue (h : ReadsElement t d) {c : CodePoint}
    (hc : c = 44 ∨ c = 93 ∨ c = 125) (rest : Text) (hsteps : 2 * t.length ≤ steps) :
    StartsDocument (skipSpace (t ++ c :: rest)) ∧
      ∃ after, readValue steps (skipSpace (t ++ c :: rest)) = .ok (d, after) ∧
        skipSpace after = c :: rest := by
  obtain ⟨v, s, w, rfl, hv, hstart, hread, hw⟩ := h
  have hends : EndsNumber (w ++ c :: rest) := hw.endsNumber (endsNumber_cons hc rest)
  have hskip : skipSpace (v ++ (s ++ w) ++ c :: rest) = s ++ (w ++ c :: rest) := by
    rw [List.append_assoc, hv.skipSpace_append, List.append_assoc, (hstart.append _).skipSpace_eq]
  rw [hskip]
  refine ⟨hstart.append _, _, hread (fun _ => hends) (by simp at hsteps; omega), ?_⟩
  rw [hw.skipSpace_append]
  rcases hc with rfl | rfl | rfl <;> rfl

theorem ReadsMember.exists_readMembers {m : Text × Json} (h : ReadsMember t m) {c : CodePoint}
    (hc : c = 44 ∨ c = 93 ∨ c = 125) (rest : Text) (hsteps : 2 * t.length ≤ steps) :
    ∃ u, skipSpace (t ++ c :: rest) = 0x22 :: u ∧
      readMembers (steps + 1) (0x22 :: u) =
        match c :: rest with
        | 125 :: rest => .ok ([m], rest)
        | 44 :: rest => do
          let (members, after) ← readMembers steps (skipSpace rest)
          return (m :: members, after)
        | other => fail .noComma other := by
  obtain ⟨v, k, w, u, rfl, hv, hk, hw, hu⟩ := h
  have hlength : 2 * u.length ≤ steps := by
    simp at hsteps
    omega
  obtain ⟨-, after, hvalue, hafter⟩ := hu.exists_readValue hc rest hlength
  have hkey := readString_eq_ok_iff.2 ⟨k, (rfl : k ++ 0x22 :: (w ++ 0x3A :: (u ++ c :: rest)) = _), hk⟩
  have hcolon : skipSpace (w ++ 0x3A :: (u ++ c :: rest)) = 0x3A :: (u ++ c :: rest) :=
    hw.skipSpace_append _
  refine ⟨k ++ 0x22 :: (w ++ 0x3A :: (u ++ c :: rest)), ?_, ?_⟩
  · rw [List.append_assoc, hv.skipSpace_append]
    simp [skipSpace, isSpace]
  · rw [readMembers_eq hkey hcolon hvalue, hafter]
    rfl

/-- Every phrase of the grammar is read. -/
theorem Grammar.Denotes.parses {t : Text} {p : Phrase} (h : Denotes t p) : Parses t p := by
  induction h with
  | nullWord => exact parses_value ⟨_, _, rfl, by decide, by decide⟩ fun _ _ _ _ => rfl
  | trueWord => exact parses_value ⟨_, _, rfl, by decide, by decide⟩ fun _ _ _ _ => rfl
  | falseWord => exact parses_value ⟨_, _, rfl, by decide, by decide⟩ fun _ _ _ _ => rfl
  | number h =>
    exact parses_value (startsDocument_numeral h) fun _ steps hrest _ =>
      readValue_numeral h (hrest (isNumber_of_numeral h)) steps
  | @string _ x h =>
    obtain @⟨s, _, units, hunits, hjoins⟩ := h
    refine parses_value ⟨_, _, rfl, by decide, by decide⟩ fun rest steps _ _ => ?_
    have hread : readString (s ++ 0x22 :: rest) = .ok (x, rest) :=
      readString_eq_ok_iff.2 ⟨s, rfl, .intro hunits hjoins⟩
    rw [List.cons_append, List.append_assoc, readValue, List.singleton_append, hread]
    rfl
  | @emptyArray w hw =>
    refine parses_value ⟨_, _, rfl, by decide, by decide⟩ fun rest steps _ _ => ?_
    have hclose : skipSpace (w ++ 0x5D :: rest) = 0x5D :: rest := hw.skipSpace_append _
    rw [List.cons_append, List.append_assoc, readValue, List.singleton_append, hclose]
    rfl
  | @array t items _ ih =>
    refine parses_value ⟨_, _, rfl, by decide, by decide⟩ fun rest steps _ hsteps => ?_
    obtain ⟨hstart, hread⟩ := @ih rest steps (by simp at hsteps; omega)
    rw [List.cons_append, List.append_assoc]
    exact readValue_list rfl hstart hread
  | @emptyObject w hw =>
    refine parses_value ⟨_, _, rfl, by decide, by decide⟩ fun rest steps _ _ => ?_
    have hclose : skipSpace (w ++ 0x7D :: rest) = 0x7D :: rest := hw.skipSpace_append _
    rw [List.cons_append, List.append_assoc, readValue, List.singleton_append, hclose]
    rfl
  | @object t pairs members _ hkeeps ih =>
    refine parses_value ⟨_, _, rfl, by decide, by decide⟩ fun rest steps _ hsteps => ?_
    obtain ⟨u, hopen, hread⟩ := @ih rest steps (by simp at hsteps; omega)
    rw [List.cons_append, List.append_assoc, hkeeps.unique (keeps_ofMembers pairs)]
    exact readValue_object hopen hread
  | element hv _ hw ih => exact ⟨_, _, _, rfl, hv, ih.1, ih.2, hw⟩
  | lastElement _ ih =>
    intro rest steps hsteps
    obtain ⟨steps, rfl⟩ := Nat.exists_eq_succ_of_ne_zero (by omega : steps ≠ 0)
    obtain ⟨hstart, after, hread, hafter⟩ := ih.exists_readValue (.inr (.inl rfl)) rest
      (by omega : _ ≤ steps)
    rw [readItems_eq hread, hafter]
    exact ⟨hstart, rfl⟩
  | @moreElements t u d items _ _ ih ihlater =>
    intro rest steps hsteps
    obtain ⟨steps, rfl⟩ := Nat.exists_eq_succ_of_ne_zero (by omega : steps ≠ 0)
    rw [List.length_append, List.length_cons] at hsteps
    obtain ⟨hstart, after, hread, hafter⟩ := ih.exists_readValue (.inl rfl) (u ++ 0x5D :: rest)
      (by omega : _ ≤ steps)
    obtain ⟨-, hlater⟩ := @ihlater rest steps (by omega)
    rw [List.append_assoc, List.cons_append, readItems_eq hread, hafter]
    refine ⟨hstart, ?_⟩
    change (readItems steps (skipSpace (u ++ 0x5D :: rest)) >>= fun read => _) = _
    rw [hlater]
    rfl
  | member hv hs hw _ ih =>
    obtain ⟨hunits, hjoins⟩ := hs
    exact ⟨_, _, _, _, by simp, hv, .intro hunits hjoins, hw, ih⟩
  | lastMember _ ih =>
    intro rest steps hsteps
    obtain ⟨steps, rfl⟩ := Nat.exists_eq_succ_of_ne_zero (by omega : steps ≠ 0)
    exact ih.exists_readMembers (.inr (.inr rfl)) rest (by omega : _ ≤ steps)
  | @moreMembers t u m pairs _ _ ih ihlater =>
    intro rest steps hsteps
    obtain ⟨steps, rfl⟩ := Nat.exists_eq_succ_of_ne_zero (by omega : steps ≠ 0)
    rw [List.length_append, List.length_cons] at hsteps
    obtain ⟨v, hopen, hread⟩ := ih.exists_readMembers (.inl rfl) (u ++ 0x7D :: rest)
      (by omega : _ ≤ steps)
    obtain ⟨x, hnext, hlater⟩ := @ihlater rest steps (by omega)
    refine ⟨v, by rw [List.append_assoc, List.cons_append, hopen], ?_⟩
    rw [hread]
    change (readMembers steps (skipSpace (u ++ 0x7D :: rest)) >>= fun read => _) = _
    rw [hnext, hlater]
    rfl

end Completeness

/-! ### Whole texts -/

theorem denotes_of_decode {t : Text} {d : Json} (h : decode t = .ok d) :
    Denotes t (.element d) := by
  obtain ⟨v, hv, ht⟩ := exists_blank_skipSpace t
  unfold decode at h
  split at h
  · cases h
  · rename_i value rest hread
    split at h
    · rename_i hend
      cases h
      obtain ⟨s, hs, hvalue⟩ := exists_denotes_of_readFront hread
      obtain ⟨w, hw, hrest⟩ := exists_blank_skipSpace rest
      rw [hend, List.append_nil] at hrest
      rw [ht, hs, hrest]
      exact .element hv hvalue hw
    · cases h

theorem decode_of_denotes {t : Text} {d : Json} (h : Denotes t (.element d)) :
    decode t = .ok d := by
  cases h with
  | @element v s w _ hv hs hw =>
    obtain ⟨hstart, hreads⟩ := hs.parses
    have hends : EndsNumber (w ++ []) := hw.endsNumber nofun
    rw [List.append_nil] at hends
    have hread : readFront (s ++ w) = .ok (d, w) :=
      hreads (fun _ => hends) (by rw [List.length_append]; omega)
    have hend : skipSpace w = [] := by
      rw [← List.append_nil w, hw.skipSpace_append]
      rfl
    rw [decode, hv.skipSpace_append, (hstart.append w).skipSpace_eq, hread]
    dsimp only
    rw [hend]

theorem decode_eq_ok_iff_denotes {t : Text} {d : Json} :
    decode t = .ok d ↔ Denotes t (.element d) :=
  ⟨denotes_of_decode, decode_of_denotes⟩

/-- A text stands for one document at most. -/
theorem Grammar.Denotes.unique {t : Text} {d d' : Json} (h : Denotes t (.element d))
    (h' : Denotes t (.element d')) : d = d' :=
  Except.ok.inj ((decode_of_denotes h).symm.trans (decode_of_denotes h'))

/-- A text is decoded exactly if it is a document of the grammar, to the one document that it
stands for, and exactly the other texts are malformed. -/
theorem decode_accepts_grammar (t : Text) :
    (∀ d, decode t = .ok d ↔ Denotes t (.element d)) ∧
      (∀ d d', Denotes t (.element d) → Denotes t (.element d') → d = d') ∧
      (∀ v, Session.readOne t = .ok v ↔ ∃ d, Denotes t (.element d) ∧ v = .ofJson d) ∧
      ((∃ e, Session.readOne t = .error e ∧ e.kind = .decode) ↔
        ∀ d, ¬ Denotes t (.element d)) := by
  refine ⟨fun _ => decode_eq_ok_iff_denotes, fun _ _ h h' => h.unique h', ?_⟩
  simp only [← decode_eq_ok_iff_denotes, Session.readOne]
  cases decode t with
  | ok d =>
    refine ⟨fun v => ?_, ?_⟩
    · simp [eq_comm]
    · simp
  | error fault =>
    refine ⟨fun v => ?_, ?_⟩
    · simp
    · simp [Error.kind]

/-- A zero may have a sign and white space before it, but no second digit behind it. -/
theorem decode_accepts_grammar_zeros :
    Denotes (Text.ofString " -0") (.element (.int 0)) ∧
      ∀ d, ¬ Denotes (Text.ofString "01") (.element d) := by
  have hextra : decode (Text.ofString "01") = .error (.flaw .extraText ⟨1, 2, 1⟩) := rfl
  refine ⟨((decode_accepts_grammar _).1 _).1 rfl, fun d h => ?_⟩
  rw [((decode_accepts_grammar _).1 d).2 h] at hextra
  cases hextra

end JsonLisp.Json
