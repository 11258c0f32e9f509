import JsonLisp.Json.Read
import JsonLisp.Proofs.Except

/-!
# Steps of the readers

What the readers of values, items and members can do with one step, where they succeed. What holds
of all documents that are read follows by induction on the steps.

## Main definitions

* `Json.ValueStep`, `Json.ItemsStep`, `Json.MembersStep`: the ways to succeed.
* `Json.exists_valueStep`, `Json.exists_itemsStep`, `Json.exists_membersStep`: there are no others.
-/

namespace JsonLisp.Json

/-- A word or a number is read from the front of a text. -/
inductive ScalarStep (t : Text) : Json → Text → Prop
  | nullWord {rest : Text} : afterWord? "null" t = some rest → ScalarStep t .null rest
  | trueWord {rest : Text} : afterWord? "true" t = some rest → ScalarStep t (.bool true) rest
  | falseWord {rest : Text} : afterWord? "false" t = some rest → ScalarStep t (.bool false) rest
  | number {rest : Text} {d : Json} : readNumber t = .ok (d, rest) → ScalarStep t d rest

/-- A value is read from the front of a text, with `steps` left for its parts. -/
inductive ValueStep (steps : Nat) : Text → Json → Text → Prop
  | text {t rest text : Text} : readString t = .ok (text, rest) →
      ValueStep steps (0x22 :: t) (.text text) rest
  | emptyList {t rest : Text} : skipSpace t = 0x5D :: rest →
      ValueStep steps (0x5B :: t) (.list []) rest
  | list {t rest : Text} {items : List Json} :
      readItems steps (skipSpace t) = .ok (items, rest) → ValueStep steps (0x5B :: t) (.list items) rest
  | emptyObject {t rest : Text} : skipSpace t = 0x7D :: rest →
      ValueStep steps (0x7B :: t) (.object []) rest
  | object {t rest : Text} {pairs : List (Text × Json)} :
      readMembers steps (skipSpace t) = .ok (pairs, rest) →
      ValueStep steps (0x7B :: t) (.object (ofMembers pairs)) rest
  | scalar {t rest : Text} {d : Json} : ScalarStep t d rest → ValueStep steps t d rest

/-- Items are read through a closing bracket, or up to a comma and then further. -/
inductive ItemsStep (steps : Nat) : Text → List Json → Text → Prop
  | last {t after rest : Text} {d : Json} : readValue steps t = .ok (d, after) →
      skipSpace after = 0x5D :: rest → ItemsStep steps t [d] rest
  | more {t after inside rest : Text} {d : Json} {items : List Json} :
      readValue steps t = .ok (d, after) → skipSpace after = 0x2C :: inside →
      readItems steps (skipSpace inside) = .ok (items, rest) → ItemsStep steps t (d :: items) rest

/-- A quoted key, a colon and a value. -/
inductive MemberStep (steps : Nat) : Text → Text → Json → Text → Prop
  | intro {t key afterKey inside after : Text} {d : Json} : readString t = .ok (key, afterKey) →
      skipSpace afterKey = 0x3A :: inside → readValue steps (skipSpace inside) = .ok (d, after) →
      MemberStep steps (0x22 :: t) key d after

/-- Members are read through a closing brace, or up to a comma and then further. -/
inductive MembersStep (steps : Nat) : Text → List (Text × Json) → Text → Prop
  | last {t key after rest : Text} {d : Json} : MemberStep steps t key d after →
      skipSpace after = 0x7D :: rest → MembersStep steps t [(key, d)] rest
  | more {t key after inside rest : Text} {d : Json} {pairs : List (Text × Json)} :
      MemberStep steps t key d after → skipSpace after = 0x2C :: inside →
      readMembers steps (skipSpace inside) = .ok (pairs, rest) →
      MembersStep steps t ((key, d) :: pairs) rest

variable {steps : Nat} {t rest : Text}

theorem scalarStep_of_readScalar {d : Json} (h : readScalar t = .ok (d, rest)) :
    ScalarStep t d rest := by
  unfold readScalar at h
  split at h
  · rename_i hword
    cases h
    exact .nullWord hword
  · rename_i hword _
    cases h
    exact .trueWord hword
  · rename_i hword _ _
    cases h
    exact .falseWord hword
  · split at h
    · cases h
    · exact .number h

theorem exists_valueStep {d : Json} (h : readValue steps t = .ok (d, rest)) :
    ∃ n, steps = n + 1 ∧ ValueStep n t d rest := by
  unfold readValue at h
  split at h
  · cases h
  · obtain ⟨_, hstring, h⟩ := exists_of_bind_eq_ok h
    cases h
    exact ⟨_, rfl, .text hstring⟩
  · refine ⟨_, rfl, ?_⟩
    split at h
    · rename_i hclose
      cases h
      exact .emptyList hclose
    · obtain ⟨_, hitems, h⟩ := exists_of_bind_eq_ok h
      cases h
      exact .list hitems
  · refine ⟨_, rfl, ?_⟩
    split at h
    · rename_i hclose
      cases h
      exact .emptyObject hclose
    · obtain ⟨_, hmembers, h⟩ := exists_of_bind_eq_ok h
      cases h
      exact .object hmembers
  · exact ⟨_, rfl, .scalar (scalarStep_of_readScalar h)⟩

theorem exists_itemsStep {items : List Json} (h : readItems steps t = .ok (items, rest)) :
    ∃ n, steps = n + 1 ∧ ItemsStep n t items rest := by
  cases steps with
  | zero => cases h
  | succ n =>
    rw [readItems] at h
    obtain ⟨⟨d, after⟩, hvalue, h⟩ := exists_of_bind_eq_ok h
    refine ⟨n, rfl, ?_⟩
    dsimp only at h
    split at h
    · rename_i hclose
      cases h
      exact .last hvalue hclose
    · rename_i hcomma
      obtain ⟨_, hitems, h⟩ := exists_of_bind_eq_ok h
      cases h
      exact .more hvalue hcomma hitems
    · cases h

theorem exists_membersStep {pairs : List (Text × Json)}
    (h : readMembers steps t = .ok (pairs, rest)) :
    ∃ n, steps = n + 1 ∧ MembersStep n t pairs rest := by
  unfold readMembers at h
  split at h
  · cases h
  · refine ⟨_, rfl, ?_⟩
    obtain ⟨⟨key, afterKey⟩, hkey, h⟩ := exists_of_bind_eq_ok h
    dsimp only at h
    split at h
    · rename_i hcolon
      obtain ⟨⟨d, after⟩, hvalue, h⟩ := exists_of_bind_eq_ok h
      have hmember := MemberStep.intro hkey hcolon hvalue
      dsimp only at h
      split at h
      · rename_i hclose
        cases h
        exact .last hmember hclose
      · rename_i hcomma
        obtain ⟨_, hmembers, h⟩ := exists_of_bind_eq_ok h
        cases h
        exact .more hmember hcomma hmembers
      · cases h
    · cases h
  · cases h

end JsonLisp.Json
