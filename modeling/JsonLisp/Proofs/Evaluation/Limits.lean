import JsonLisp.Proofs.Evaluation.Growth

/-!
# Larger limits

Two evaluations of one form that differ in their limits take the same steps until one of them is
stopped by a guard. From there the other can only add to what both have done.

## Main definitions

* `Outcome.hitsGuard`: whether a guard has ended a computation.
* `Outcome.CutsShort`: one outcome is another one, or that of the same computation up to a guard.
* `Congruence.cutShort`: two computations with such outcomes from every state.
-/

namespace JsonLisp

namespace Outcome

variable {α : Type}

/-- Whether one of the two depth guards has ended a computation. -/
def hitsGuard : Outcome Error α → Bool
  | .ok _ _ => false
  | .error e _ => e.kind.isGuard

/-- The first outcome is the second, unless a guard has ended it. In that case the state has grown
further in the second. -/
def CutsShort (r r' : Outcome Error α) : Prop :=
  if hitsGuard r then State.Grows (state r) (state r') else r' = r

theorem CutsShort.refl (r : Outcome Error α) : CutsShort r r := by
  unfold CutsShort
  split
  · exact State.Grows.refl _
  · rfl

theorem cutsShort_of_guard {e : Error} {s : State} {r : Outcome Error α} (h : e.kind.isGuard)
    (hgrows : s.Grows (state r)) : CutsShort (.error e s) r := by
  unfold CutsShort
  rw [if_pos (by exact h)]
  exact hgrows

theorem CutsShort.mapState {r r' : Outcome Error α} (h : CutsShort r r') {g : State → State}
    (hg : ∀ s t : State, s.Grows t → (g s).Grows (g t)) :
    CutsShort (mapState g r) (mapState g r') := by
  have hguard : hitsGuard (Outcome.mapState g r) = hitsGuard r := by cases r <;> rfl
  unfold CutsShort at h ⊢
  rw [hguard]
  split
  · rename_i hhit
    rw [if_pos hhit] at h
    simpa using hg _ _ h
  · rename_i hmiss
    rw [if_neg hmiss] at h
    rw [h]

end Outcome

open Outcome (CutsShort hitsGuard)

/-- Outcomes cut short, where the second computation only adds to the state. -/
def CutShort {α : Type} (m m' : Run α) : Prop :=
  (∀ s, CutsShort (m s) (m' s)) ∧ OnlyGrows m'

namespace CutShort

variable {α β : Type} {m m' : Run α} {f f' : α → Run β}

theorem of_onlyGrows (h : OnlyGrows m) : CutShort m m := ⟨fun s => .refl (m s), h⟩

theorem bind (hm : CutShort m m') (hf : ∀ a, CutShort (f a) (f' a)) :
    CutShort (m >>= f) (m' >>= f') := by
  have hf' : ∀ a, OnlyGrows (f' a) := fun a => (hf a).2
  refine ⟨fun s => ?_, hm.2.bind hf'⟩
  have hs := hm.1 s
  cases h : m s with
  | ok a t =>
    rw [h] at hs
    have h' : m' s = .ok a t := hs
    rw [bind_of_ok h, bind_of_ok h']
    exact (hf a).1 t
  | error e t =>
    rw [h] at hs
    rw [bind_of_error h]
    by_cases hguard : e.kind.isGuard
    · -- The larger run goes on from here, first in `m'` and then in `f'`.
      have hgrows : t.Grows (Outcome.state (m' s)) := by
        simpa [CutsShort, hitsGuard, hguard] using hs
      exact Outcome.cutsShort_of_guard hguard (hgrows.trans (OnlyGrows.grows_bind hf' s))
    · have h' : m' s = .error e t := by
        simpa [CutsShort, hitsGuard, hguard] using hs
      rw [bind_of_error h']
      exact .refl _

/-- A guard cuts short whatever would have followed. -/
theorem throw_guard {e : Error} (h : e.kind.isGuard) (hm' : OnlyGrows m') :
    CutShort (throw e) m' := ⟨fun s => Outcome.cutsShort_of_guard h (hm' s), hm'⟩

theorem read {f f' : State → Run β} (hf : ∀ s, CutShort (f s) (f' s)) :
    CutShort (get >>= f) (get >>= f') :=
  ⟨fun s => (hf s).1 s, OnlyGrows.read fun s => (hf s).2⟩

end CutShort

def Congruence.cutShort : StateCongruence where
  Rel := CutShort
  rel_pure a := .of_onlyGrows (.pure a)
  rel_throw e := .of_onlyGrows (.throw e)
  rel_bind := CutShort.bind
  rel_read hf _ _ := CutShort.read hf
  rel_print document := .of_onlyGrows (Congruence.growth.rel_print document)
  rel_newClosure form scope := .of_onlyGrows (Congruence.growth.rel_newClosure form scope)
  rel_defineGlobal name value := .of_onlyGrows (Congruence.growth.rel_defineGlobal name value)
  rel_defineMacro name transformer :=
    .of_onlyGrows (Congruence.growth.rel_defineMacro name transformer)

theorem CutShort.nested {α : Type} {m m' : Run α} (h : CutShort m m') :
    CutShort (Run.nested m) (Run.nested m') := by
  refine ⟨fun s => ?_, onlyGrows_nested h.2⟩
  rw [nested_eq_mapState, nested_eq_mapState]
  exact (h.1 (s.atDepth (s.depth + 1))).mapState fun _ _ hgrows => hgrows.atDepth _ _

/-! ### Expansion and evaluation -/

section Engines

variable {e e' : Engine} (h : Congruence.cutShort.EngineRel e e')
include h

theorem growthRel_of_cutShort : Congruence.growth.EngineRel e e' where
  eval v env := (h.eval v env).2
  primitive p args := (h.primitive p args).2

/-- More steps of expansion. The limits are only named in errors. -/
theorem cutShort_expandFurther {steps steps' : Nat} (hsteps : steps ≤ steps')
    (limit limit' : Int) (form : Value) :
    CutShort (expandFurther e limit steps form) (expandFurther e' limit' steps' form) := by
  have hgrowth := growthRel_of_cutShort h
  induction steps generalizing steps' form with
  | zero =>
    cases steps' with
    | zero =>
      refine CutShort.read fun s => ?_
      split
      · exact .throw_guard rfl (.throw _)
      · exact .of_onlyGrows (.pure form)
    | succ steps' =>
      refine CutShort.read fun s => ?_
      split
      · rename_i name args _
        refine .throw_guard rfl (.bind (Congruence.rel_expandOnce hgrowth name args) ?_)
        exact Congruence.rel_expandFurther hgrowth limit' steps'
      · exact .of_onlyGrows (.pure form)
  | succ steps ih =>
    obtain ⟨more, rfl⟩ : ∃ more, steps' = more + 1 := ⟨steps' - 1, by omega⟩
    refine CutShort.read fun s => ?_
    split
    · rename_i name args _
      exact .bind (Congruence.rel_expandOnce h name args) fun next => ih (by omega) next
    · exact .of_onlyGrows (.pure form)

theorem cutShort_evalNamed {limits limits' : Limits}
    (hlimits : limits.expansion ≤ limits'.expansion) (name : Text) (args : List Value)
    (env : Environment) :
    CutShort (evalNamed limits e name args env) (evalNamed limits' e' name args env) := by
  refine CutShort.read fun s => ?_
  split
  · refine .bind (.bind (Congruence.rel_expandOnce h name args) fun form => ?_) fun form =>
      h.eval form env
    exact cutShort_expandFurther h (by omega) _ _ form
  · exact Congruence.rel_evalCall h _ args env

end Engines

/-- Without levels every form is cut short. -/
theorem cutShort_noLevels (limit : Int) (limits : Limits) (levels : Nat) (v : Value)
    (env : Environment) :
    CutShort (evalWith (fun _ _ _ => throw (.nestedTooDeep limit)) v env)
      (evalLevels Primitive.run limits levels v env) := by
  obtain ⟨onForm, honForm⟩ :
      ∃ onForm, evalLevels Primitive.run limits levels = evalWith onForm := by
    cases levels <;> exact ⟨_, rfl⟩
  rw [honForm]
  refine Congruence.cutShort.rel_evalWith (fun head args env => .throw_guard rfl ?_) v env
  have hgrowth := onlyGrows_evalLevels limits levels (.list (head :: args)) env
  rwa [honForm, evalWith] at hgrowth

/-- Fewer levels and fewer steps of expansion can only cut an evaluation short. -/
theorem cutShort_evalLevels {limits limits' : Limits}
    (hlimits : limits.expansion ≤ limits'.expansion) {levels levels' : Nat}
    (hlevels : levels ≤ levels') (v : Value) (env : Environment) :
    CutShort (evalLevels Primitive.run limits levels v env)
      (evalLevels Primitive.run limits' levels' v env) := by
  induction levels generalizing levels' v env with
  | zero => exact cutShort_noLevels limits.evaluation limits' levels' v env
  | succ levels ih =>
    obtain ⟨more, rfl⟩ : ∃ more, levels' = more + 1 := ⟨levels' - 1, by omega⟩
    have h : Congruence.cutShort.EngineRel ⟨evalLevels Primitive.run limits levels, Primitive.run⟩
        ⟨evalLevels Primitive.run limits' more, Primitive.run⟩ :=
      ⟨ih (by omega), Congruence.cutShort.rel_primitive⟩
    refine Congruence.cutShort.rel_evalWith (fun head args env => CutShort.nested ?_) v env
    rw [evalForm_eq_formBy, evalForm_eq_formBy]
    exact Congruence.rel_formBy h (cutShort_evalNamed h hlimits) head args env

/-! ### Evaluation in a session -/

theorem cutShort_evaluate {limits limits' : Limits}
    (hevaluation : limits.evaluation ≤ limits'.evaluation)
    (hexpansion : limits.expansion ≤ limits'.expansion) (v : Value) (env : Environment) :
    CutShort (evaluate limits v env) (evaluate limits' v env) := by
  refine ⟨fun s => ?_, onlyGrows_evaluate limits' v env⟩
  have hlevels : levelsLeft limits s ≤ levelsLeft limits' s := by
    unfold levelsLeft
    omega
  exact (cutShort_evalLevels hexpansion hlevels v env).1 s

/-- Larger limits change nothing in an evaluation that no guard ends: not the value or the error
and nothing in the state. An evaluation that a guard ends leaves definitions, in their order, and
output with which those under larger limits begin. -/
theorem evaluate_larger_limits {limits limits' : Limits}
    (hevaluation : limits.evaluation ≤ limits'.evaluation)
    (hexpansion : limits.expansion ≤ limits'.expansion) (v : Value) (env : Environment)
    (s : State) :
    (hitsGuard (evaluate limits v env s) = false →
      evaluate limits' v env s = evaluate limits v env s) ∧
    (hitsGuard (evaluate limits v env s) = true →
      (Outcome.state (evaluate limits v env s)).globals.definitions <+:
        (Outcome.state (evaluate limits' v env s)).globals.definitions ∧
      (Outcome.state (evaluate limits v env s)).macros.definitions <+:
        (Outcome.state (evaluate limits' v env s)).macros.definitions ∧
      (Outcome.state (evaluate limits v env s)).output <+:
        (Outcome.state (evaluate limits' v env s)).output) := by
  have hcut := (cutShort_evaluate hevaluation hexpansion v env).1 s
  unfold CutsShort at hcut
  constructor
  · intro hmiss
    rwa [if_neg (by simp [hmiss])] at hcut
  · intro hhit
    rw [if_pos hhit] at hcut
    exact ⟨hcut.globals_prefix, hcut.macros_prefix, hcut.output_prefix⟩

/-- `["do", ["def", "a", 1], ["do", ["do"]]]` has forms three deep, the last of them after a
definition. -/
theorem evaluate_larger_limits_afterDefinition :
    let v : Value := .list [.word "do", .list [.word "def", .word "a", .int 1],
      .list [.word "do", .list [.word "do"]]]
    (hitsGuard (evaluate ⟨1, 2⟩ v .root .empty) = true ∧
      hitsGuard (evaluate ⟨1, 3⟩ v .root .empty) = false) ∧
    (Outcome.state (evaluate ⟨1, 2⟩ v .root .empty)).globals.definitions <+:
      (Outcome.state (evaluate ⟨1, 3⟩ v .root .empty)).globals.definitions ∧
    evaluate ⟨1, 4⟩ v .root .empty = evaluate ⟨1, 3⟩ v .root .empty := by
  intro v
  have hhit : hitsGuard (evaluate ⟨1, 2⟩ v .root .empty) = true := by decide +kernel
  have hmiss : hitsGuard (evaluate ⟨1, 3⟩ v .root .empty) = false := by decide +kernel
  exact ⟨⟨hhit, hmiss⟩,
    ((evaluate_larger_limits (by decide) (by decide) v .root .empty).2 hhit).1,
    (evaluate_larger_limits (by decide) (by decide) v .root .empty).1 hmiss⟩

end JsonLisp
