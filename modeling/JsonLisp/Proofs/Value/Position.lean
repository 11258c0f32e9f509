import JsonLisp.Proofs.Value.Parts
import Mathlib.Data.List.Nodup
import Mathlib.Data.Option.Basic

/-!
# Positions in a value

A position leads from a value into its lists by indices and into its maps by keys. It does not lead
into closures.

## Main definitions

* `Value.at?`: the value at a position.
* `Value.Throughout`: what holds at all positions.
* `Value.Agree`: two values that show the same at each position.

## Main results

* `Value.agree_iff`: two values agree if they do at the top and their children agree.
-/

namespace JsonLisp

/-- What is found under a key is the value of an entry. -/
theorem mem_of_valueUnder? {key : Text} {entries : List (Text × Value)} {v : Value}
    (h : valueUnder? key entries = some v) : (key, v) ∈ entries := by
  obtain ⟨e, he, rfl⟩ := Option.map_eq_some_iff.1 h
  have hkey : e.1 = key := by simpa using List.find?_some he
  exact hkey ▸ List.mem_of_find?_eq_some he

theorem isSome_valueUnder? {key : Text} {entries : List (Text × Value)} :
    (valueUnder? key entries).isSome = true ↔ ∃ e ∈ entries, e.1 = key := by
  simp [valueUnder?, List.find?_isSome]

/-- Where no key is used twice, each entry is found under its key. -/
theorem valueUnder?_of_mem {key : Text} {entries : List (Text × Value)} {v : Value}
    (hdistinct : (entries.map Prod.fst).Nodup) (h : (key, v) ∈ entries) :
    valueUnder? key entries = some v := by
  obtain ⟨w, hw⟩ := Option.isSome_iff_exists.1 (isSome_valueUnder?.2 ⟨_, h, rfl⟩)
  have heq : (key, w) = (key, v) :=
    List.inj_on_of_nodup_map hdistinct (mem_of_valueUnder? hw) h rfl
  rw [← (Prod.mk.inj heq).2]
  exact hw

namespace Value

inductive Step where
  | index (i : Nat)
  | key (k : Text)

/-- The item of a list with an index, or the value of a map under a key. -/
def child? : Value → Step → Option Value
  | .list items, .index i => items[i]?
  | .map entries, .key k => valueUnder? k entries
  | _, _ => none

/-- The value at a position. -/
def at? : Value → List Step → Option Value
  | v, [] => some v
  | v, step :: path => (v.child? step).bind fun w => w.at? path

/-- Children come before the values that they are in. -/
@[elab_as_elim]
theorem child_induct {motive : Value → Prop}
    (step : ∀ v, (∀ s w, v.child? s = some w → motive w) → motive v) (v : Value) : motive v := by
  induction v with
  | list items ih =>
    refine step _ fun s w hw => ?_
    cases s with
    | index i => exact ih w (List.mem_of_getElem? hw)
    | key k => cases hw
  | map entries ih =>
    refine step _ fun s w hw => ?_
    cases s with
    | index i => cases hw
    | key k => exact ih _ (mem_of_valueUnder? hw)
  | null | bool | int | float | text | closure | builtin =>
    exact step _ fun s w hw => by cases hw

/-! ### What holds at all positions -/

def Throughout (p : Value → Prop) (v : Value) : Prop := ∀ path w, v.at? path = some w → p w

namespace Throughout

variable {p : Value → Prop} {v w : Value} {s : Step}

theorem self (h : v.Throughout p) : p v := h [] v rfl

theorem child (h : v.Throughout p) (hw : v.child? s = some w) : w.Throughout p :=
  fun path u hu => h (s :: path) u (by rw [at?, hw, Option.bind_some, hu])

end Throughout

theorem Everywhere.child {p : Value → Prop} {v w : Value} {s : Step} (h : v.Everywhere p)
    (hw : v.child? s = some w) : w.Everywhere p := by
  fun_cases child? v s with
  | case1 items i => exact (everywhere_list.1 h).2 w (List.mem_of_getElem? hw)
  | case2 entries k => exact (everywhere_map.1 h).2 _ (mem_of_valueUnder? hw)
  | case3 => simp_all [child?]

/-- What is at a position is a part. -/
theorem Everywhere.throughout {p : Value → Prop} {v : Value} (h : v.Everywhere p) :
    v.Throughout p := by
  intro path
  induction path generalizing v with
  | nil => exact fun w hw => Option.some.inj hw ▸ h.self
  | cons s path ih =>
    intro w hw
    obtain ⟨x, hx, hw⟩ := Option.bind_eq_some_iff.1 hw
    exact ih (h.child hx) w hw

/-! ### Agreement -/

/-- The same is seen of two values at each position, or both have none. -/
def Agree {γ : Type} (view : Value → γ) (a b : Value) : Prop :=
  ∀ path, (a.at? path).map view = (b.at? path).map view

section Agree

variable {γ : Type} {view : Value → γ} {a b c : Value}

theorem Agree.refl (a : Value) : a.Agree view a := fun _ => rfl

theorem Agree.symm (h : a.Agree view b) : b.Agree view a := fun path => (h path).symm

theorem Agree.trans (h : a.Agree view b) (h' : b.Agree view c) : a.Agree view c :=
  fun path => (h path).trans (h' path)

instance : Std.Symm (Agree view) := ⟨fun _ _ => Agree.symm⟩

instance : Trans (Agree view) (Agree view) (Agree view) := ⟨Agree.trans⟩

theorem Agree.comp {δ : Type} (f : γ → δ) (h : a.Agree view b) :
    a.Agree (fun v => f (view v)) b := fun path => by
  simpa [Function.comp_def] using congrArg (Option.map f) (h path)

theorem agree_iff : a.Agree view b ↔
    view a = view b ∧ ∀ s, Option.Rel (Agree view) (a.child? s) (b.child? s) := by
  constructor
  · intro h
    refine ⟨Option.some.inj (h []), fun s => ?_⟩
    have hchild : ∀ path, ((a.child? s).bind fun w => w.at? path).map view =
        ((b.child? s).bind fun w => w.at? path).map view := fun path => h (s :: path)
    cases ha : a.child? s with
    | none =>
      cases hb : b.child? s with
      | none => exact .none
      | some y => simpa [ha, hb, at?] using hchild []
    | some x =>
      cases hb : b.child? s with
      | none => simpa [ha, hb, at?] using hchild []
      | some y => exact .some fun path => by simpa [ha, hb] using hchild path
  · rintro ⟨hview, hchildren⟩ path
    cases path with
    | nil => exact congrArg some hview
    | cons s path =>
      have hs := hchildren s
      simp only [at?]
      generalize a.child? s = x at hs
      generalize b.child? s = y at hs
      cases hs with
      | none => rfl
      | some h => exact h path

end Agree

end Value

end JsonLisp
