import JsonLisp.Proofs.Binary64.Order
import JsonLisp.Proofs.Value.Position
import Mathlib.Data.List.Chain
import Mathlib.Data.List.Pairwise

/-!
# Equality by position

Equality is recursion on two values at once. It comes to the same as looking at each position for
itself: two values are equal if they have the same content at each position, or both have no such
position. All laws of equality follow from that.

## Main definitions

* `Value.content`: what equality reads of a value apart from its children.
* `Value.Regular`: distinct keys and no not-a-number, at all positions.

## Main results

* `Value.same_iff` for the equality of the language.
* `Value.alike_iff_agree` for equality with the booleans as numbers.
-/

namespace JsonLisp

/-- What is at a position, without what is under it. -/
inductive Content where
  | null
  | bool (b : Bool)
  | number (p : Point)
  | nan (payload : Nat)
  | text (t : Text)
  | list
  | map
  | closure (identity : Nat)
  | builtin (name : Text)

namespace Content

/-- The booleans as the numbers zero and one. -/
def blur : Content → Content
  | .bool b => .number (.ofRat (if b then 1 else 0))
  | c => c

theorem blur_eq_list_iff {c : Content} : c.blur = .list ↔ c = .list := by
  cases c <;> simp [blur]

theorem blur_eq_map_iff {c : Content} : c.blur = .map ↔ c = .map := by
  cases c <;> simp [blur]

/-- A boolean meets a number, or not-a-number meets itself. -/
def Meets : Content → Content → Prop
  | .bool _, .number _ | .number _, .bool _ | .nan _, .nan _ => True
  | _, _ => False

theorem eq_of_blur_eq {c d : Content} (h : c.blur = d.blur) (hclear : ¬ c.Meets d) :
    c = d ∧ ∀ payload, c ≠ .nan payload := by
  cases c <;> cases d <;> simp_all [blur, Meets]
  case bool.bool s t => cases s <;> cases t <;> simp_all [Point.ofRat]

end Content

namespace Value

def content : Value → Content
  | .null => .null
  | .bool b => .bool b
  | .int n => .number (.ofRat n)
  | .float (.nan payload) => .nan payload
  | .float (.infinity negative) => .number (.ofEnd negative)
  | .float (.finite x) => .number (.ofRat x.value)
  | .text t => .text t
  | .list _ => .list
  | .map _ => .map
  | .closure identity _ _ => .closure identity
  | .builtin name => .builtin name

section Content

variable {v : Value}

theorem content_eq_bool_iff {b : Bool} : v.content = .bool b ↔ v = .bool b := by
  fun_cases content v <;> simp

theorem content_eq_list_iff : v.content = .list ↔ ∃ items, v = .list items := by
  fun_cases content v <;> simp

theorem content_eq_map_iff : v.content = .map ↔ ∃ entries, v = .map entries := by
  fun_cases content v <;> simp

theorem child?_eq_none (hlist : v.content ≠ .list) (hmap : v.content ≠ .map) (s : Step) :
    v.child? s = none := by
  cases v <;> simp_all [content, child?]

end Content

/-! ### Conditions -/

def isNaN : Value → Bool
  | .float (.nan _) => true
  | _ => false

theorem isNaN_eq_false_iff {v : Value} :
    v.isNaN = false ↔ ∀ payload, v.content ≠ .nan payload := by
  fun_cases content v <;> simp [isNaN]

def WithoutNaN : Value → Prop := Throughout fun v => v.isNaN = false

/-! ### Values that are neither two lists nor two maps -/

section Atoms

variable {a b : Value}

theorem equalAtoms_iff (ha : a.isNaN = false) (hlist : ∀ xs ys, a = .list xs → b ≠ .list ys)
    (hmap : ∀ es fs, a = .map es → b ≠ .map fs) :
    equalAtoms number? a b = true ↔ a.content = b.content := by
  fun_cases content a <;> fun_cases content b <;>
    simp_all [equalAtoms, number?, isNaN, Number.compare?_eq_eq_iff, Number.point?,
      Binary64.point?]

theorem alikeAtoms_iff (hlist : ∀ xs ys, a = .list xs → b ≠ .list ys)
    (hmap : ∀ es fs, a = .map es → b ≠ .map fs) :
    alikeAtoms a b = true ↔ a.content.blur = b.content.blur := by
  fun_cases content a <;> fun_cases content b <;>
    simp_all [alikeAtoms, equalAtoms, numberOrBool?, number?, Content.blur,
      Number.compare?_eq_eq_iff, Number.point?, Binary64.point?]

end Atoms

/-! ### Equality by children -/

section EqualBy

variable {atoms : Value → Value → Bool}

theorem equalBy_of_not_nested {a b : Value} (hlist : ∀ xs ys, a = .list xs → b ≠ .list ys)
    (hmap : ∀ es fs, a = .map es → b ≠ .map fs) : equalBy atoms a b = atoms a b := by
  fun_cases equalBy atoms a b with
  | case1 xs ys => exact absurd rfl (hlist xs ys rfl)
  | case2 es fs => exact absurd rfl (hmap es fs rfl)
  | case3 => rfl

theorem itemsEqualBy_iff {xs ys : List Value} : itemsEqualBy atoms xs ys = true ↔
    ∀ i : Nat, Option.Rel (fun x y => equalBy atoms x y = true) xs[i]? ys[i]? := by
  induction xs generalizing ys with
  | nil =>
    cases ys with
    | nil => simp [itemsEqualBy]
    | cons y ys => simpa [itemsEqualBy] using ⟨0, by simp⟩
  | cons x xs ih =>
    cases ys with
    | nil => simpa [itemsEqualBy] using ⟨0, by simp⟩
    | cons y ys =>
      rw [← Nat.and_forall_add_one]
      simp [itemsEqualBy, ih]

theorem entriesEqualBy_iff {es fs : List (Text × Value)} : entriesEqualBy atoms es fs = true ↔
    ∀ e ∈ es, ∃ y, valueUnder? e.1 fs = some y ∧ equalBy atoms e.2 y = true := by
  induction es with
  | nil => simp [entriesEqualBy]
  | cons e es ih => cases h : valueUnder? e.1 fs <;> simp [entriesEqualBy, h, ih]

theorem hasKeysOf_iff {es fs : List (Text × Value)} : hasKeysOf es fs = true ↔
    ∀ k, (valueUnder? k fs).isSome → (valueUnder? k es).isSome := by
  simp [hasKeysOf, isSome_valueUnder?]

/-- Maps are equal when each key has equal values in both or none in either. -/
theorem mapsEqualBy_iff {es fs : List (Text × Value)} (h : (es.map Prod.fst).Nodup) :
    (hasKeysOf es fs && entriesEqualBy atoms es fs) = true ↔
      ∀ k, Option.Rel (fun x y => equalBy atoms x y = true) (valueUnder? k es)
        (valueUnder? k fs) := by
  rw [Bool.and_eq_true, hasKeysOf_iff, entriesEqualBy_iff]
  constructor
  · rintro ⟨hkeys, hentries⟩ k
    cases hx : valueUnder? k es with
    | none =>
      cases hy : valueUnder? k fs with
      | none => exact .none
      | some y => simpa [hx, hy] using hkeys k
    | some x =>
      obtain ⟨y, hy, hxy⟩ := hentries _ (mem_of_valueUnder? hx)
      rw [hy]
      exact .some hxy
  · intro hall
    constructor
    · intro k hk
      have hrel := hall k
      cases hx : valueUnder? k es <;> cases hy : valueUnder? k fs <;> simp_all
    · intro e he
      have hrel := hall e.1
      rw [valueUnder?_of_mem h he] at hrel
      cases hy : valueUnder? e.1 fs <;> simp_all

/-- Values that are neither two lists nor two maps are compared by what is seen of their contents,
if the first one satisfies `p`. -/
structure Views (atoms : Value → Value → Bool) (view : Content → Content)
    (p : Value → Prop) : Prop where
  list_iff : ∀ c, view c = .list ↔ c = .list
  map_iff : ∀ c, view c = .map ↔ c = .map
  atoms_iff : ∀ a b, p a → (∀ xs ys, a = .list xs → b ≠ .list ys) →
    (∀ es fs, a = .map es → b ≠ .map fs) →
    (atoms a b = true ↔ view a.content = view b.content)

variable {view : Content → Content} {p : Value → Prop}

theorem Views.equalBy_iff_children (h : Views atoms view p) {a b : Value} (hp : p a)
    (hkeys : a.DistinctKeys) :
    equalBy atoms a b = true ↔ view a.content = view b.content ∧
      ∀ s, Option.Rel (fun x y => equalBy atoms x y = true) (a.child? s) (b.child? s) := by
  fun_cases equalBy atoms a b with
  | case1 xs ys =>
    rw [itemsEqualBy_iff]
    constructor
    · intro hitems
      refine ⟨rfl, fun s => ?_⟩
      cases s with
      | index i => exact hitems i
      | key k => exact .none
    · exact fun hboth i => hboth.2 (.index i)
  | case2 es fs =>
    rw [mapsEqualBy_iff hkeys]
    constructor
    · intro hmaps
      refine ⟨rfl, fun s => ?_⟩
      cases s with
      | index i => exact .none
      | key k => exact hmaps k
    · exact fun hboth k => hboth.2 (.key k)
  | case3 _ _ hlist hmap =>
    rw [h.atoms_iff a b hp hlist hmap]
    refine ⟨fun hview => ⟨hview, fun s => ?_⟩, And.left⟩
    have hlists : a.content = .list ↔ b.content = .list := by
      rw [← h.list_iff, hview, h.list_iff]
    have hmaps : a.content = .map ↔ b.content = .map := by
      rw [← h.map_iff, hview, h.map_iff]
    have halist : a.content ≠ .list := by
      intro ha
      obtain ⟨xs, rfl⟩ := content_eq_list_iff.1 ha
      obtain ⟨ys, rfl⟩ := content_eq_list_iff.1 (hlists.1 ha)
      exact hlist xs ys rfl rfl
    have hamap : a.content ≠ .map := by
      intro ha
      obtain ⟨es, rfl⟩ := content_eq_map_iff.1 ha
      obtain ⟨fs, rfl⟩ := content_eq_map_iff.1 (hmaps.1 ha)
      exact hmap es fs rfl rfl
    rw [child?_eq_none halist hamap, child?_eq_none (mt hlists.2 halist) (mt hmaps.2 hamap)]
    exact .none

/-- By induction on the first value: both sides say that the contents are the same and that the
children stand in the same relation. -/
theorem Views.equalBy_iff_agree (h : Views atoms view p) {a b : Value} (hp : a.Throughout p)
    (hkeys : a.Throughout DistinctKeys) :
    equalBy atoms a b = true ↔ a.Agree (fun v => view v.content) b := by
  induction a using child_induct generalizing b with
  | step a ih =>
    rw [h.equalBy_iff_children hp.self hkeys.self, agree_iff]
    refine and_congr_right fun _ => forall_congr' fun s => ?_
    cases hx : a.child? s with
    | none => cases b.child? s <;> simp
    | some x =>
      cases b.child? s with
      | none => simp
      | some y => simpa using ih s x hx (hp.child hx) (hkeys.child hx)

end EqualBy

/-! ### The two equalities -/

section Equality

variable {a b c : Value}

theorem views_same : Views (equalAtoms number?) id (fun v => v.isNaN = false) where
  list_iff _ := .rfl
  map_iff _ := .rfl
  atoms_iff _ _ ha := equalAtoms_iff ha

theorem views_alike : Views alikeAtoms Content.blur (fun _ => True) where
  list_iff _ := Content.blur_eq_list_iff
  map_iff _ := Content.blur_eq_map_iff
  atoms_iff _ _ _ := alikeAtoms_iff

theorem alike_iff_agree (hkeys : a.Throughout DistinctKeys) :
    a.alike b = true ↔ a.Agree (fun v => v.content.blur) b :=
  views_alike.equalBy_iff_agree (fun _ _ _ => trivial) hkeys

theorem isNaN_of_same (h : a.same b = true) : a.isNaN = false := by
  fun_cases isNaN a with
  | case1 payload => cases b <;> cases h
  | case2 => rfl

/-- A value with not-a-number at a position is equal to nothing. -/
theorem withoutNaN_of_same (hkeys : a.Throughout DistinctKeys) (h : a.same b = true) :
    a.WithoutNaN := by
  induction a using child_induct generalizing b with
  | step a ih =>
    have hself := isNaN_of_same h
    obtain ⟨-, hchildren⟩ := (views_same.equalBy_iff_children hself hkeys.self).1 h
    intro path w hw
    cases path with
    | nil => exact Option.some.inj hw ▸ hself
    | cons s path =>
      obtain ⟨x, hx, hpath⟩ := Option.bind_eq_some_iff.1 hw
      have hs := hchildren s
      rw [hx] at hs
      cases hy : b.child? s with
      | none => simp [hy] at hs
      | some y => exact ih s x hx (hkeys.child hx) (by simpa [hy, same] using hs) path w hpath

theorem same_iff (hkeys : a.Throughout DistinctKeys) :
    a.same b = true ↔ a.WithoutNaN ∧ a.Agree content b := by
  constructor
  · intro h
    have hnan := withoutNaN_of_same hkeys h
    exact ⟨hnan, (views_same.equalBy_iff_agree hnan hkeys).1 h⟩
  · rintro ⟨hnan, hagree⟩
    exact (views_same.equalBy_iff_agree hnan hkeys).2 hagree

/-- Values without not-a-number and without a key that occurs twice. -/
structure Regular (v : Value) : Prop where
  keys : v.Throughout DistinctKeys
  withoutNaN : v.WithoutNaN

theorem Regular.same_iff (ha : a.Regular) : a.same b = true ↔ a.Agree content b :=
  (Value.same_iff ha.keys).trans (and_iff_right ha.withoutNaN)

theorem Regular.same_self (ha : a.Regular) : a.same a = true := ha.same_iff.2 (.refl a)

theorem Regular.same_comm (ha : a.Regular) (hb : b.Regular) : a.same b = b.same a := by
  rw [Bool.eq_iff_iff, ha.same_iff, hb.same_iff]
  exact ⟨Agree.symm, Agree.symm⟩

theorem Regular.same_trans (ha : a.Regular) (hb : b.Regular) (h : a.same b = true)
    (h' : b.same c = true) : a.same c = true :=
  ha.same_iff.2 ((ha.same_iff.1 h).trans (hb.same_iff.1 h'))

/-- Neighbours need only be equal, as equality passes on. -/
theorem isChain_same_iff {vs : List Value} (h : ∀ v ∈ vs, v.Regular) :
    vs.IsChain (fun a b => a.same b = true) ↔ ∀ a ∈ vs, ∀ b ∈ vs, a.same b = true := by
  constructor
  · intro hchain a ha b hb
    have hagree : vs.IsChain (Agree content) :=
      hchain.imp_of_mem_imp fun x y hx _ hxy => (h x hx).same_iff.1 hxy
    have hpairs := List.isChain_iff_pairwise.1 hagree
    exact (h a ha).same_iff.2 (hpairs.forall_of_forall (fun x _ => .refl x) ha hb)
  · exact fun hall => (List.pairwise_of_forall_mem_list hall).isChain

/-- Equal values have the same booleans in the same places. -/
theorem Agree.at?_eq_bool_iff (h : a.Agree content b) (path : List Step) (t : Bool) :
    a.at? path = some (.bool t) ↔ b.at? path = some (.bool t) := by
  have hbool : ∀ v : Value, v.at? path = some (.bool t) ↔
      (v.at? path).map content = some (.bool t) := by
    simp [content_eq_bool_iff]
  rw [hbool, hbool, h path]

theorem alike_comm (ha : a.Throughout DistinctKeys) (hb : b.Throughout DistinctKeys) :
    a.alike b = b.alike a := by
  rw [Bool.eq_iff_iff, alike_iff_agree ha, alike_iff_agree hb]
  exact ⟨Agree.symm, Agree.symm⟩

theorem alike_of_same (ha : a.Throughout DistinctKeys) (h : a.same b = true) : a.alike b = true :=
  (alike_iff_agree ha).2 (((same_iff ha).1 h).2.comp Content.blur)

/-! ### Where the two equalities differ -/

/-- At some position a boolean of one value meets a number of the other, or not-a-number meets
itself. -/
def Blurred (a b : Value) : Prop :=
  ∃ path x y, a.at? path = some x ∧ b.at? path = some y ∧ x.content.Meets y.content

theorem not_blurred (ha : a.Throughout fun v => v.isBool = false ∧ v.isNaN = false)
    (hb : b.Throughout fun v => v.isBool = false) : ¬ Blurred a b := by
  rintro ⟨path, x, y, hx, hy, hmeets⟩
  obtain ⟨hxbool, hxnan⟩ := ha path x hx
  have hybool := hb path y hy
  revert hxbool hxnan hybool hmeets
  fun_cases content x <;> fun_cases content y <;> simp [Content.Meets, isBool, isNaN]

theorem same_of_alike (ha : a.Throughout DistinctKeys) (h : a.alike b = true)
    (hclear : ¬ Blurred a b) : a.same b = true := by
  have hagree := (alike_iff_agree ha).1 h
  have hboth : ∀ path x, a.at? path = some x →
      ∃ y, b.at? path = some y ∧ x.isNaN = false ∧ x.content = y.content := by
    intro path x hx
    have hpath := hagree path
    rw [hx] at hpath
    obtain ⟨y, hy, hxy⟩ := Option.map_eq_some_iff.1 hpath.symm
    obtain ⟨heq, hnan⟩ :=
      Content.eq_of_blur_eq hxy.symm fun hmeets => hclear ⟨path, x, y, hx, hy, hmeets⟩
    exact ⟨y, hy, isNaN_eq_false_iff.2 hnan, heq⟩
  refine (same_iff ha).2 ⟨fun path x hx => ?_, fun path => ?_⟩
  · obtain ⟨-, -, hnan, -⟩ := hboth path x hx
    exact hnan
  · cases hx : a.at? path with
    | none => simpa [hx] using hagree path
    | some x =>
      obtain ⟨y, hy, -, heq⟩ := hboth path x hx
      simp [hy, heq]

end Equality

end Value

end JsonLisp
