import JsonLisp.Environment

/-!
# The parts of a value

The items of a list, the values of a map, and the form and the bindings of a closure are parts of it,
and so are their own parts.

## Main definitions

* `Value.induct`: induction on values, where a closure comes after its form and its bindings.
* `Value.PartOf`, and `Value.Everywhere` for what holds of all parts of a value.
* `Value.Occurs`: a value that is part of one of several.
* `Value.DistinctKeys`: a map without a key that occurs twice.
-/

namespace JsonLisp.Value

/-! ### Induction -/

theorem sizeOf_binding {b : Text × Value} {bindings : List (Text × Value)} (h : b ∈ bindings) :
    sizeOf b.2 < sizeOf bindings := by
  have hb : sizeOf b < sizeOf bindings := List.sizeOf_lt_of_mem h
  have hpair : sizeOf b = 1 + sizeOf b.1 + sizeOf b.2 := by
    cases b
    rfl
  omega

theorem sizeOf_item {b : Text × Value} {scope : Environment} (h : b ∈ scope.items) :
    sizeOf b.2 < sizeOf scope := by
  obtain ⟨frame, hframe, hb⟩ := List.mem_flatten.1 h
  exact Nat.lt_trans (sizeOf_binding hb) (List.sizeOf_lt_of_mem hframe)

/-- Parts come before the values that they are parts of. -/
@[elab_as_elim, induction_eliminator]
theorem induct {motive : Value → Prop} (null : motive .null) (bool : ∀ b, motive (.bool b))
    (int : ∀ n, motive (.int n)) (float : ∀ x, motive (.float x)) (text : ∀ t, motive (.text t))
    (list : ∀ items, (∀ v ∈ items, motive v) → motive (.list items))
    (map : ∀ entries, (∀ e ∈ entries, motive e.2) → motive (.map entries))
    (closure : ∀ identity form scope, (∀ v ∈ form, motive v) →
      (∀ b ∈ Environment.items scope, motive b.2) → motive (.closure identity form scope))
    (builtin : ∀ name, motive (.builtin name)) : ∀ v : Value, motive v
  | .null => null
  | .bool b => bool b
  | .int n => int n
  | .float x => float x
  | .text t => text t
  | .list items =>
    list items fun v _h => induct null bool int float text list map closure builtin v
  | .map entries =>
    map entries fun e _h => induct null bool int float text list map closure builtin e.2
  | .closure identity form scope =>
    closure identity form scope
      (fun v _h => induct null bool int float text list map closure builtin v)
      (fun b _h => induct null bool int float text list map closure builtin b.2)
  | .builtin name => builtin name
termination_by v => sizeOf v
decreasing_by
  · have := List.sizeOf_lt_of_mem _h
    rw [Value.list.sizeOf_spec]
    omega
  · have := sizeOf_binding _h
    rw [Value.map.sizeOf_spec]
    omega
  · have := List.sizeOf_lt_of_mem _h
    rw [Value.closure.sizeOf_spec]
    omega
  · have := sizeOf_item _h
    rw [Value.closure.sizeOf_spec]
    omega

/-! ### Parts -/

/-- `PartOf a v`: the value `a` occurs in `v`, at any depth. -/
inductive PartOf (a : Value) : Value → Prop
  | self : PartOf a a
  | item {v : Value} {items : List Value} : v ∈ items → PartOf a v → PartOf a (.list items)
  | entry {e : Text × Value} {entries : List (Text × Value)} : e ∈ entries → PartOf a e.2 →
      PartOf a (.map entries)
  | code {v : Value} {identity : Nat} {form : List Value} {scope : Environment} : v ∈ form →
      PartOf a v → PartOf a (.closure identity form scope)
  | bound {b : Text × Value} {identity : Nat} {form : List Value} {scope : Environment} :
      b ∈ scope.items → PartOf a b.2 → PartOf a (.closure identity form scope)

/-- What holds of a value and all its parts. -/
def Everywhere (p : Value → Prop) (v : Value) : Prop := ∀ a, PartOf a v → p a

variable {p : Value → Prop}

theorem Everywhere.self {v : Value} (h : v.Everywhere p) : p v := h v .self

/-- Lists, maps and closures alone have other parts than themselves. -/
def isAtom : Value → Bool
  | .list _ | .map _ | .closure _ _ _ => false
  | _ => true

theorem everywhere_atom {v : Value} (h : v.isAtom = true) : v.Everywhere p ↔ p v := by
  refine ⟨fun hv => hv.self, fun hv a ha => ?_⟩
  cases ha with
  | self => exact hv
  | item | entry | code | bound => cases h

theorem everywhere_list {items : List Value} :
    (list items).Everywhere p ↔ p (.list items) ∧ ∀ v ∈ items, v.Everywhere p := by
  constructor
  · exact fun h => ⟨h.self, fun v hv a ha => h a (.item hv ha)⟩
  · rintro ⟨hself, hitems⟩ a ha
    cases ha with
    | self => exact hself
    | item hv ha => exact hitems _ hv a ha

theorem everywhere_map {entries : List (Text × Value)} :
    (map entries).Everywhere p ↔ p (.map entries) ∧ ∀ e ∈ entries, e.2.Everywhere p := by
  constructor
  · exact fun h => ⟨h.self, fun e he a ha => h a (.entry he ha)⟩
  · rintro ⟨hself, hentries⟩ a ha
    cases ha with
    | self => exact hself
    | entry he ha => exact hentries _ he a ha

theorem everywhere_closure {identity : Nat} {form : List Value} {scope : Environment} :
    (closure identity form scope).Everywhere p ↔ p (.closure identity form scope) ∧
      (∀ v ∈ form, v.Everywhere p) ∧ ∀ b ∈ scope.items, b.2.Everywhere p := by
  constructor
  · exact fun h => ⟨h.self, fun v hv a ha => h a (.code hv ha), fun b hb a ha => h a (.bound hb ha)⟩
  · rintro ⟨hself, hform, hscope⟩ a ha
    cases ha with
    | self => exact hself
    | code hv ha => exact hform _ hv a ha
    | bound hb ha => exact hscope _ hb a ha

/-! ### Several values -/

/-- The value occurs in one of the values, at any depth. -/
def Occurs (a : Value) (vs : List Value) : Prop := ∃ v ∈ vs, PartOf a v

section Occurs

variable {a : Value}

@[simp] theorem not_occurs_nil : ¬ Occurs a [] := fun ⟨_, hv, _⟩ => List.not_mem_nil hv

@[simp] theorem occurs_cons {v : Value} {vs : List Value} :
    Occurs a (v :: vs) ↔ PartOf a v ∨ Occurs a vs := by
  simp only [Occurs, List.mem_cons, or_and_right, exists_or, exists_eq_left]

@[simp] theorem occurs_append {vs us : List Value} :
    Occurs a (vs ++ us) ↔ Occurs a vs ∨ Occurs a us := by
  simp only [Occurs, List.mem_append, or_and_right, exists_or]

end Occurs

/-! ### Closures as parts -/

def IsClosure (v : Value) : Prop := ∃ identity form scope, v = .closure identity form scope

namespace IsClosure

variable {c : Value} (hc : c.IsClosure)
include hc

theorem not_partOf_atom {v : Value} (h : v.isAtom = true) : ¬ PartOf c v := by
  obtain ⟨i, form, scope, rfl⟩ := hc
  intro hpart
  cases hpart <;> cases h

theorem partOf_list {items : List Value} : PartOf c (.list items) ↔ Occurs c items := by
  obtain ⟨i, form, scope, rfl⟩ := hc
  constructor
  · intro h
    cases h with
    | item hv h => exact ⟨_, hv, h⟩
  · rintro ⟨v, hv, h⟩
    exact .item hv h

theorem partOf_map {entries : List (Text × Value)} :
    PartOf c (.map entries) ↔ Occurs c (entries.map Prod.snd) := by
  obtain ⟨i, form, scope, rfl⟩ := hc
  constructor
  · intro h
    cases h with
    | entry he h => exact ⟨_, List.mem_map_of_mem he, h⟩
  · rintro ⟨v, hv, h⟩
    obtain ⟨e, he, rfl⟩ := List.mem_map.1 hv
    exact .entry he h

/-- Of several lists together and of each by itself. -/
theorem occurs_flatten {lists : List (List Value)} :
    Occurs c lists.flatten ↔ Occurs c (lists.map Value.list) := by
  induction lists with
  | nil => simp
  | cons items rest ih => simp [hc.partOf_list, ih]

end IsClosure

/-! ### Keys -/

/-- The keys are distinct, if the value is a map. -/
def DistinctKeys : Value → Prop
  | .map entries => (entries.map Prod.fst).Nodup
  | _ => True

end JsonLisp.Value
