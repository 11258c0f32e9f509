import JsonLisp.Proofs.Simulation.Basic
import JsonLisp.Proofs.Value.Wire

/-!
# Texts of similar values

Neither text of a value shows the identity of a closure or the borders of the frames that it has
captured. Where related values are similar, and related environments have related items, related
values have the same texts.

## Main statements

* `wire_eq_of_similar`, `display_eq_of_similar`.
-/

namespace JsonLisp.Value

open List (Forall₂)

theorem map_eq_map_of_forall₂ {α β γ : Type} {R : α → β → Prop} {f : α → γ} {g : β → γ}
    {xs : List α} {ys : List β} (h : Forall₂ R xs ys) (hfg : ∀ x ∈ xs, ∀ y, R x y → f x = g y) :
    xs.map f = ys.map g := by
  induction h with
  | nil => rfl
  | cons hxy _ ih =>
    obtain ⟨hx, hrest⟩ := List.forall_mem_cons.1 hfg
    rw [List.map_cons, List.map_cons, hx _ hxy, ih hrest]

section Texts

variable {val : Value → Value → Prop} {env : Environment → Environment → Prop}

theorem displayItems_eq_of_forall₂ {xs ys : List Value} (h : Forall₂ val xs ys)
    (hshown : ∀ x ∈ xs, ∀ y, val x y → x.display = y.display) :
    displayItems xs = displayItems ys := by
  induction h with
  | nil => rfl
  | cons hxy _ ih =>
    obtain ⟨hx, hrest⟩ := List.forall_mem_cons.1 hshown
    rw [displayItems, displayItems, hx _ hxy, ih hrest]

theorem displayEntries_eq_of_forall₂ {es fs : List (Text × Value)}
    (h : Forall₂ (SameName val) es fs)
    (hshown : ∀ e ∈ es, ∀ b, val e.2 b → e.2.display = b.display) :
    displayEntries es = displayEntries fs := by
  induction h with
  | nil => rfl
  | cons hef _ ih =>
    obtain ⟨he, hrest⟩ := List.forall_mem_cons.1 hshown
    rw [displayEntries, displayEntries, hef.1, he _ hef.2, ih hrest]

variable (hval : ∀ {a b}, val a b → Similar val env a b)
include hval

theorem display_eq_of_similar {a b : Value} (h : val a b) : a.display = b.display := by
  induction a generalizing b with
  | list items ih =>
    cases hval h with
    | list hitems =>
      rw [display, display, displayItems_eq_of_forall₂ hitems fun v hv _ => ih v hv]
  | map entries ih =>
    cases hval h with
    | map hentries =>
      rw [display, display, displayEntries_eq_of_forall₂ hentries fun e he _ => ih e he]
  | closure identity form scope ih _ =>
    cases hval h with
    | closure hform _ =>
      -- Only the parameters and the body are shown, so the form is taken apart first.
      match form, hform with
      | [], .nil => rfl
      | [_], .cons _ .nil => rfl
      | _ :: params :: body, .cons _ (.cons hparams hbody) =>
        have hshown : displayItems body = displayItems _ :=
          displayItems_eq_of_forall₂ hbody fun v hv _ => ih v (by simp [hv])
        rw [display, display, ih params (by simp) hparams, hshown]
  | null | bool | int | float | text | builtin =>
    cases hval h
    rfl

/-- The bindings of a scope are shown one by one, so its items must be related too. -/
theorem wire_eq_of_similar
    (henv : ∀ {scope scope'}, env scope scope' →
      Forall₂ (SameName val) (Environment.items scope) (Environment.items scope'))
    {a b : Value} (h : val a b) : a.wire = b.wire := by
  induction a generalizing b with
  | list items ih =>
    cases hval h with
    | list hitems =>
      rw [wire, wire, wireItems_eq_map, wireItems_eq_map,
        map_eq_map_of_forall₂ hitems fun v hv _ => ih v hv]
  | map entries ih =>
    cases hval h with
    | map hentries =>
      rw [wire, wire, wireEntries_eq_map, wireEntries_eq_map]
      refine congrArg _ (map_eq_map_of_forall₂ hentries fun e he f hef => ?_)
      rw [hef.1, ih e he hef.2]
  | closure identity form scope hcode hbound =>
    cases hval h with
    | closure hform hscope =>
      have hitems := map_eq_map_of_forall₂ (f := wireBinding) (g := wireBinding) (henv hscope)
        fun b hb c hbc => by rw [wireBinding, wireBinding, hbc.1, hbound b hb hbc.2]
      rw [wire, wire, wireItems_eq_map, wireItems_eq_map, wireScope_eq_map, wireScope_eq_map,
        hitems, map_eq_map_of_forall₂ hform fun v hv _ => hcode v hv]
  | null | bool | int | float | text | builtin =>
    cases hval h
    rfl

end Texts

end JsonLisp.Value
