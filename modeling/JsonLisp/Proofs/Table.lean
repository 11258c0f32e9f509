import JsonLisp.Table

/-!
# Tables that only grow

A table grows by definitions of names that it does not contain. Through any number of them the
bindings made before keep their places and their values, and no name is bound twice.

## Main definitions

* `Table.definitions`: the bindings in the order of their definition.
* `Table.Grows`: growth by given names, newest first.
-/

namespace JsonLisp

namespace Table

variable {t u v : Table} {name : Text} {value : Value} {names more : List Text}

/-- The bindings in the order of their definition. -/
def definitions (t : Table) : List (Text × Value) := t.entries.reverse

@[simp] theorem definitions_add (t : Table) (name : Text) (value : Value) :
    (t.add name value).definitions = t.definitions ++ [(name, value)] := by
  simp [definitions, add]

/-! ### Names and look-up -/

@[simp] theorem names_add (t : Table) (name : Text) (value : Value) :
    (t.add name value).names = name :: t.names := rfl

theorem mem_names : name ∈ t.names ↔ t.contains name = true := by
  simp [names, contains]

@[simp] theorem find?_add_self (t : Table) (name : Text) (value : Value) :
    (t.add name value).find? name = some value := by
  simp [find?, add, valueUnder?]

theorem find?_add_of_ne {other : Text} (h : other ≠ name) :
    (t.add name value).find? other = t.find? other := by
  simp [find?, add, valueUnder?, Ne.symm h]

theorem contains_iff_find? : t.contains name = true ↔ ∃ value, t.find? name = some value := by
  simp only [contains, find?, valueUnder?, Option.map_eq_some_iff, List.any_eq_true]
  constructor
  · rintro ⟨entry, hmem, hname⟩
    obtain ⟨found, hfound⟩ := Option.isSome_iff_exists.1
      (List.find?_isSome (p := fun entry => entry.1 == name).2 ⟨entry, hmem, hname⟩)
    exact ⟨found.2, found, hfound, rfl⟩
  · rintro ⟨_, found, hfound, _⟩
    exact ⟨found, List.mem_of_find?_eq_some hfound,
      List.find?_some (p := fun entry : Text × Value => entry.1 == name) hfound⟩

theorem lookup_eq_ok : t.lookup name = .ok value ↔ t.find? name = some value := by
  unfold lookup
  split <;> simp_all

/-! ### Growth -/

/-- `u` is `t` after definitions of these names, newest first. -/
inductive Grows : List Text → Table → Table → Prop
  | refl (t : Table) : Grows [] t t
  | define {names : List Text} {t u : Table} {name : Text} (value : Value) :
      Grows names t u → u.contains name = false → Grows (name :: names) t (u.add name value)

namespace Grows

theorem trans (h : Grows names t u) (g : Grows more u v) : Grows (more ++ names) t v := by
  induction g with
  | refl => exact h
  | define value _ hfresh ih => exact .define value (ih h) hfresh

theorem names_eq (h : Grows names t u) : u.names = names ++ t.names := by
  induction h with
  | refl => rfl
  | define value _ _ ih => rw [names_add, ih, List.cons_append]

/-- Where no name has been added, nothing has. -/
theorem eq_of_names (h : Grows names t u) (hnames : u.names = t.names) : u = t := by
  have hnone : names = [] := by simpa [hnames] using h.names_eq
  subst hnone
  cases h
  rfl

theorem definitions_prefix (h : Grows names t u) : t.definitions <+: u.definitions := by
  induction h with
  | refl => exact List.prefix_rfl
  | define value _ _ ih => exact ih.trans (by simp)

theorem nodup (h : Grows names t u) (ht : t.names.Nodup) : u.names.Nodup := by
  induction h with
  | refl => exact ht
  | define value _ hfresh ih =>
    rw [names_add, List.nodup_cons, mem_names]
    exact ⟨by simp [hfresh], ih ht⟩

theorem find? (h : Grows names t u) (hvalue : t.find? name = some value) :
    u.find? name = some value := by
  induction h with
  | refl => exact hvalue
  | @define _ _ u new newValue _ hfresh ih =>
    have hbound : u.contains name = true := contains_iff_find?.2 ⟨value, ih hvalue⟩
    have hne : name ≠ new := by
      rintro rfl
      rw [hfresh] at hbound
      cases hbound
    rw [find?_add_of_ne hne, ih hvalue]

end Grows

end Table

end JsonLisp
