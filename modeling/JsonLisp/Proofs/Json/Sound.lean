import JsonLisp.Proofs.Json.Steps
import Mathlib.Data.List.Nodup

/-!
# Documents that can be read

Every number of a document that was read is finite, and the keys of every object are distinct.

## Main definitions

* `Json.Sound`: documents with finite numbers and distinct keys.
* `Json.sound_of_decode`, `Json.sound_of_decodeAll`: what is read is sound.
-/

namespace JsonLisp.Json

/-- Finite numbers and distinct keys at every depth. -/
inductive Sound : Json → Prop
  | null : Sound .null
  | bool (b : Bool) : Sound (.bool b)
  | int (n : Int) : Sound (.int n)
  | float {x : Binary64} : x.isFinite = true → Sound (.float x)
  | text (t : Text) : Sound (.text t)
  | list {items : List Json} : (∀ d ∈ items, Sound d) → Sound (.list items)
  | object {members : List (Text × Json)} : (members.map Prod.fst).Nodup →
      (∀ m ∈ members, Sound m.2) → Sound (.object members)

/-! ### Members -/

theorem mem_putMember {members : List (Text × Json)} {key : Text} {value : Json}
    {m : Text × Json} (h : m ∈ putMember members key value) :
    m = (key, value) ∨ m ∈ members := by
  induction members with
  | nil => exact .inl (List.mem_singleton.1 h)
  | cons first rest ih =>
    obtain ⟨k, v⟩ := first
    rw [putMember] at h
    split at h
    · rename_i hk
      obtain rfl | hm := List.mem_cons.1 h
      · exact .inl (by rw [hk])
      · exact .inr (List.mem_cons_of_mem _ hm)
    · obtain rfl | hm := List.mem_cons.1 h
      · exact .inr List.mem_cons_self
      · exact (ih hm).imp_right (List.mem_cons_of_mem _)

/-- A key that is known stays where it is, and a new one comes last. -/
theorem map_fst_putMember (members : List (Text × Json)) (key : Text) (value : Json) :
    (putMember members key value).map Prod.fst =
      if key ∈ members.map Prod.fst then members.map Prod.fst
      else members.map Prod.fst ++ [key] := by
  induction members with
  | nil => rfl
  | cons first rest ih =>
    obtain ⟨k, v⟩ := first
    rw [putMember]
    by_cases hk : k = key
    · simp [hk]
    · have hne : key ≠ k := fun h => hk h.symm
      simp only [if_neg hk, List.map_cons, ih, List.mem_cons, hne, false_or]
      split <;> rfl

theorem nodup_putMember {members : List (Text × Json)} (key : Text) (value : Json)
    (h : (members.map Prod.fst).Nodup) :
    ((putMember members key value).map Prod.fst).Nodup := by
  rw [map_fst_putMember]
  split
  · exact h
  · rename_i hnew
    have hconcat := List.Nodup.concat hnew h
    rwa [List.concat_eq_append] at hconcat

theorem sound_ofMembers {pairs : List (Text × Json)} (h : ∀ m ∈ pairs, m.2.Sound) :
    (Json.object (ofMembers pairs)).Sound := by
  suffices hfold : ∀ members : List (Text × Json), (members.map Prod.fst).Nodup →
      (∀ m ∈ members, m.2.Sound) →
      (Json.object (pairs.foldl (fun members pair => putMember members pair.1 pair.2)
        members)).Sound from
    hfold [] .nil fun _ hm => absurd hm List.not_mem_nil
  induction pairs with
  | nil => exact fun _ hnodup hmembers => .object hnodup hmembers
  | cons pair rest ih =>
    intro members hnodup hmembers
    refine ih (fun m hm => h m (List.mem_cons_of_mem _ hm)) _
      (nodup_putMember pair.1 pair.2 hnodup) fun m hm => ?_
    obtain rfl | hm := mem_putMember hm
    · exact h pair List.mem_cons_self
    · exact hmembers m hm

/-! ### Reading -/

theorem sound_of_value {l : Literal} {spelled : Text} {d : Json}
    (h : l.value spelled = .ok d) : d.Sound := by
  unfold Literal.value at h
  split at h
  · split at h
    · cases h
      exact .int _
    · cases h
  · split at h
    · rename_i hfinite
      cases h
      exact .float hfinite
    · cases h

theorem sound_of_readNumber {t rest : Text} {d : Json} (h : readNumber t = .ok (d, rest)) :
    d.Sound := by
  unfold readNumber at h
  split at h
  · cases h
  · obtain ⟨value, hvalue, h⟩ := exists_of_bind_eq_ok h
    cases h
    exact sound_of_value hvalue

theorem ScalarStep.sound {t rest : Text} {d : Json} (h : ScalarStep t d rest) : d.Sound := by
  cases h with
  | nullWord => exact .null
  | trueWord => exact .bool true
  | falseWord => exact .bool false
  | number hnumber => exact sound_of_readNumber hnumber

/-- The three readers, by induction on the bound of their steps. -/
theorem sound_of_steps (steps : Nat) :
    (∀ {t d rest}, readValue steps t = .ok (d, rest) → d.Sound) ∧
    (∀ {t items rest}, readItems steps t = .ok (items, rest) → ∀ d ∈ items, d.Sound) ∧
    (∀ {t pairs rest}, readMembers steps t = .ok (pairs, rest) → ∀ m ∈ pairs, m.2.Sound) := by
  induction steps using Nat.strongRecOn with
  | ind steps ih =>
    refine ⟨fun h => ?_, fun h => ?_, fun h => ?_⟩
    · obtain ⟨n, rfl, hstep⟩ := exists_valueStep h
      obtain ⟨-, hitems, hmembers⟩ := ih n n.lt_succ_self
      cases hstep with
      | text => exact .text _
      | emptyList => exact .list fun _ hd => absurd hd List.not_mem_nil
      | list hread => exact .list (hitems hread)
      | emptyObject => exact .object .nil fun _ hm => absurd hm List.not_mem_nil
      | object hread => exact sound_ofMembers (hmembers hread)
      | scalar hscalar => exact hscalar.sound
    · obtain ⟨n, rfl, hstep⟩ := exists_itemsStep h
      obtain ⟨hvalue, hitems, -⟩ := ih n n.lt_succ_self
      cases hstep with
      | last hfirst => exact List.forall_mem_singleton.2 (hvalue hfirst)
      | more hfirst _ hlater => exact List.forall_mem_cons.2 ⟨hvalue hfirst, hitems hlater⟩
    · obtain ⟨n, rfl, hstep⟩ := exists_membersStep h
      obtain ⟨hvalue, -, hmembers⟩ := ih n n.lt_succ_self
      cases hstep with
      | last hmember =>
        obtain ⟨-, -, hfirst⟩ := hmember
        exact List.forall_mem_singleton.2 (hvalue hfirst)
      | more hmember _ hlater =>
        obtain ⟨-, -, hfirst⟩ := hmember
        exact List.forall_mem_cons.2 ⟨hvalue hfirst, hmembers hlater⟩

theorem sound_of_readFront {t rest : Text} {d : Json} (h : readFront t = .ok (d, rest)) :
    d.Sound :=
  (sound_of_steps _).1 h

theorem sound_of_decode {t : Text} {d : Json} (h : decode t = .ok d) : d.Sound := by
  unfold decode at h
  split at h
  · cases h
  · rename_i hread
    split at h
    · cases h
      exact sound_of_readFront hread
    · cases h

theorem sound_of_readFronts (bound : Nat) (t : Text) : ∀ d ∈ (readFronts bound t).1, d.Sound := by
  induction bound generalizing t with
  | zero => exact fun _ hd => absurd hd List.not_mem_nil
  | succ bound ih =>
    rw [readFronts]
    split
    · exact fun _ hd => absurd hd List.not_mem_nil
    · split
      · exact fun _ hd => absurd hd List.not_mem_nil
      · rename_i hread
        exact List.forall_mem_cons.2 ⟨sound_of_readFront hread, ih _⟩

theorem sound_of_decodeAll (t : Text) : ∀ d ∈ (decodeAll t).1, d.Sound :=
  sound_of_readFronts t.length t

end JsonLisp.Json
