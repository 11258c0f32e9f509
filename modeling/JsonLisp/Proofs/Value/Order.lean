import JsonLisp.Proofs.Value.Equality
import JsonLisp.Value.Order

/-!
# The order of values

The order of two values read backwards is that of the values exchanged. Values of equal order are
alike, and equal values are of equal order if they are comparable.

## Main results

* `Value.compare_swap`.
* `Value.compareAtoms_eq_ordered_iff`: how values that are not two lists are ordered.
* `Value.alike_of_compare_eq` and `Value.compare_of_same`.
-/

namespace JsonLisp

/-- The outcome for the two values exchanged. -/
def Comparison.swap : Comparison → Comparison
  | .incomparable left right => .incomparable right left
  | .unordered => .unordered
  | .ordered o => .ordered o.swap

namespace Value

variable {a b : Value}

/-! ### Exchange -/

theorem compareAtoms_swap (a b : Value) : compareAtoms b a = (compareAtoms a b).swap := by
  fun_cases compareAtoms a b with
  | case1 _ _ m n hb ha o hcompare | case2 _ _ m n hb ha hcompare =>
    simp [compareAtoms, ha, hb, m.compare?_swap n, hcompare, Comparison.swap]
  | case3 s t =>
    simp only [compareAtoms, numberOrBool?, number?, Comparison.swap]
    exact congrArg Comparison.ordered Std.OrientedCmp.eq_swap
  | case4 hnumbers htexts =>
    cases a <;> cases b <;> simp_all [compareAtoms, numberOrBool?, number?, Comparison.swap]

/-- Only two lists are compared by their items. -/
theorem compare_of_not_lists (h : ∀ xs ys, a = .list xs → b ≠ .list ys) :
    a.compare b = compareAtoms a b := by
  fun_cases compare a b with
  | case1 xs ys => exact absurd rfl (h xs ys rfl)
  | case2 => rfl

theorem compare_swap_of_not_lists (h : ∀ xs ys, a = .list xs → b ≠ .list ys) :
    b.compare a = (a.compare b).swap := by
  rw [compare_of_not_lists h, compare_of_not_lists fun ys xs hb ha => h xs ys ha hb]
  exact compareAtoms_swap a b

/-- Whether two items are passed over does not depend on their order. -/
theorem compareItems_swap {xs ys : List Value} (hxs : ∀ x ∈ xs, x.Throughout DistinctKeys)
    (hys : ∀ y ∈ ys, y.Throughout DistinctKeys)
    (ih : ∀ x ∈ xs, ∀ y ∈ ys, y.compare x = (x.compare y).swap) :
    compareItems ys xs = (compareItems xs ys).swap := by
  induction xs generalizing ys with
  | nil => cases ys <;> rfl
  | cons x xs ihxs =>
    cases ys with
    | nil => rfl
    | cons y ys =>
      simp only [List.forall_mem_cons] at hxs hys ih
      simp only [compareItems, alike_comm hys.1 hxs.1]
      split
      · exact ihxs hxs.2 hys.2 fun x hx => (ih.2 x hx).2
      · exact ih.1.1

theorem compare_swap (ha : a.Throughout DistinctKeys) (hb : b.Throughout DistinctKeys) :
    b.compare a = (a.compare b).swap := by
  induction a generalizing b with
  | list xs ih =>
    cases b with
    | list ys =>
      have hitem {zs : List Value} (h : (list zs).Throughout DistinctKeys) (z : Value)
          (hz : z ∈ zs) : z.Throughout DistinctKeys := by
        obtain ⟨i, hi⟩ := List.getElem?_of_mem hz
        exact h.child (s := .index i) hi
      exact compareItems_swap (hitem ha) (hitem hb)
        fun x hx y hy => ih x hx (hitem ha x hx) (hitem hb y hy)
    | null | bool | int | float | text | map | closure | builtin =>
      exact compare_swap_of_not_lists nofun
  | null | bool | int | float | text | map | closure | builtin =>
    exact compare_swap_of_not_lists nofun

/-! ### Order by content -/

theorem point?_numberOrBool? {p : Point} :
    a.numberOrBool?.bind Number.point? = some p ↔ a.content.blur = .number p := by
  fun_cases content a <;>
    simp [numberOrBool?, number?, Content.blur, Number.point?, Binary64.point?]

theorem isNaN_of_point?_eq_none {m : Number} (ha : a.numberOrBool? = some m)
    (hm : m.point? = none) : a.isNaN = true := by
  fun_cases content a <;> simp_all [numberOrBool?, number?, isNaN] <;> subst ha <;>
    simp_all [Number.point?, Binary64.point?]

/-- Numbers, with the booleans among them, are ordered by their points, and texts by code points. -/
theorem compareAtoms_eq_ordered_iff {o : Ordering} : compareAtoms a b = .ordered o ↔
    (∃ p q, a.content.blur = .number p ∧ b.content.blur = .number q ∧ Ord.compare p q = o) ∨
      ∃ s t, a = .text s ∧ b = .text t ∧ List.compareLex Ord.compare s t = o := by
  constructor
  · intro h
    fun_cases compareAtoms a b with
    | case1 _ _ m n hb ha o' hcompare =>
      have ho : m.compare? n = some o := by simpa [compareAtoms, ha, hb, hcompare] using h
      rw [Number.compare?_eq, Option.bind_eq_some_iff] at ho
      obtain ⟨p, hp, ho⟩ := ho
      obtain ⟨q, hq, ho⟩ := Option.map_eq_some_iff.1 ho
      refine .inl ⟨p, q, point?_numberOrBool?.1 ?_, point?_numberOrBool?.1 ?_, ho⟩
      · rw [ha, Option.bind_some, hp]
      · rw [hb, Option.bind_some, hq]
    | case2 _ _ m n hb ha hcompare => simp [compareAtoms, ha, hb, hcompare] at h
    | case3 s t =>
      exact .inr ⟨s, t, rfl, rfl, by simpa [compareAtoms, numberOrBool?, number?] using h⟩
    | case4 => simp_all [compareAtoms]
  · rintro (⟨p, q, hp, hq, rfl⟩ | ⟨s, t, rfl, rfl, rfl⟩)
    · obtain ⟨m, ha, hp⟩ := Option.bind_eq_some_iff.1 (point?_numberOrBool?.2 hp)
      obtain ⟨n, hb, hq⟩ := Option.bind_eq_some_iff.1 (point?_numberOrBool?.2 hq)
      simp [compareAtoms, ha, hb, Number.compare?_eq, hp, hq]
    · rfl

theorem isNaN_of_compareAtoms (h : compareAtoms a b = .unordered) :
    a.isNaN = true ∨ b.isNaN = true := by
  fun_cases compareAtoms a b with
  | case1 _ _ m n hb ha o hcompare => simp [compareAtoms, ha, hb, hcompare] at h
  | case2 _ _ m n hb ha hcompare =>
    rw [Number.compare?_eq] at hcompare
    cases hm : m.point? with
    | none => exact .inl (isNaN_of_point?_eq_none ha hm)
    | some p =>
      cases hn : n.point? with
      | none => exact .inr (isNaN_of_point?_eq_none hb hn)
      | some q => simp [hm, hn] at hcompare
  | case3 s t => simp [compareAtoms, numberOrBool?, number?] at h
  | case4 => simp_all [compareAtoms]

/-! ### Equal order -/

theorem alike_of_compareAtoms_eq (h : compareAtoms a b = .ordered .eq) : a.alike b = true := by
  obtain ⟨p, q, hp, hq, hcmp⟩ | ⟨s, t, rfl, rfl, hcmp⟩ := compareAtoms_eq_ordered_iff.1 h
  · obtain rfl := compare_eq_iff_eq.1 hcmp
    have hlist : ∀ xs ys, a = .list xs → b ≠ .list ys := by
      rintro xs ys rfl
      simp [content, Content.blur] at hp
    have hmap : ∀ es fs, a = .map es → b ≠ .map fs := by
      rintro es fs rfl
      simp [content, Content.blur] at hp
    rw [alike, equalBy_of_not_nested hlist hmap, alikeAtoms_iff hlist hmap, hp, hq]
  · obtain rfl := Std.LawfulEqCmp.compare_eq_iff_eq.1 hcmp
    simp [alike, equalBy, alikeAtoms, equalAtoms, numberOrBool?, number?]

theorem alike_of_compare_eq (h : a.compare b = .ordered .eq) : a.alike b = true := by
  induction a generalizing b with
  | list xs ih =>
    cases b with
    | list ys =>
      change itemsEqualBy alikeAtoms xs ys = true
      change compareItems xs ys = .ordered .eq at h
      induction xs generalizing ys with
      | nil =>
        cases ys with
        | nil => rfl
        | cons y ys => cases h
      | cons x xs ihxs =>
        cases ys with
        | nil => cases h
        | cons y ys =>
          rw [List.forall_mem_cons] at ih
          have hx : x.alike y = true := by
            by_contra hx
            rw [compareItems, if_neg hx] at h
            exact hx (ih.1 h)
          rw [compareItems, if_pos hx] at h
          rw [itemsEqualBy, Bool.and_eq_true]
          exact ⟨hx, ihxs ih.2 ys h⟩
    | null | bool | int | float | text | map | closure | builtin =>
      exact alike_of_compareAtoms_eq h
  | null | bool | int | float | text | map | closure | builtin =>
    rw [compare_of_not_lists (by simp)] at h
    exact alike_of_compareAtoms_eq h

/-- Items that are alike are passed over, up to the end. -/
theorem compareItems_of_alike {xs ys : List Value} (h : itemsEqualBy alikeAtoms xs ys = true) :
    compareItems xs ys = .ordered .eq := by
  induction xs generalizing ys with
  | nil =>
    cases ys with
    | nil => rfl
    | cons y ys => cases h
  | cons x xs ih =>
    cases ys with
    | nil => cases h
    | cons y ys =>
      obtain ⟨hx, hrest⟩ := Bool.and_eq_true_iff.1 h
      exact (if_pos hx).trans (ih hrest)

/-- Equal values are of equal order, or are not comparable at all. -/
theorem compare_of_same (ha : a.Throughout DistinctKeys) (h : a.same b = true) :
    a.compare b = .ordered .eq ∨ ∃ left right, a.compare b = .incomparable left right := by
  have halike := alike_of_same ha h
  have hcontent : a.content = b.content := (agree_iff.1 ((same_iff ha).1 h).2).1
  have hnan : a.isNaN = false ∧ b.isNaN = false := by
    rw [isNaN_eq_false_iff, isNaN_eq_false_iff, ← hcontent, and_self]
    exact isNaN_eq_false_iff.1 (isNaN_of_same h)
  fun_cases compare a b with
  | case1 xs ys => exact .inl (compareItems_of_alike halike)
  | case2 =>
    cases hcompare : compareAtoms a b with
    | incomparable left right => exact .inr ⟨left, right, rfl⟩
    | unordered => simpa [hnan] using isNaN_of_compareAtoms hcompare
    | ordered o =>
      obtain ⟨p, q, hp, hq, rfl⟩ | ⟨s, t, rfl, rfl, rfl⟩ := compareAtoms_eq_ordered_iff.1 hcompare
      · obtain rfl : p = q := by simpa [hcontent, hq] using hp.symm
        simp
      · obtain rfl : s = t := by simpa [content] using hcontent
        exact .inl (congrArg Comparison.ordered (Std.LawfulEqCmp.compare_eq_iff_eq.2 rfl))

end Value

end JsonLisp
