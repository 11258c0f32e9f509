import JsonLisp.Proofs.Evaluation.Congruence

/-!
# The number of forms under evaluation

Evaluation with a given number of levels neither reads nor changes the number of forms under
evaluation, so counting a form around it is of no effect. It follows that `evaluate`, which takes
its levels from that number, satisfies the recursion one would write without levels: a form is
refused at the limit and otherwise evaluated, with one form more under evaluation, by `evaluate`
itself. The same goes for evaluation with another treatment of names.

## Main statements

* `DepthFree.nested_eq`: counting a form changes nothing.
* `depth_evaluate`: every evaluation leaves the number of forms as it was.
* `evaluateBy_form`, `evaluate_form`: the recursion for forms.
-/

namespace JsonLisp

variable {α : Type}

/-- Whatever the number of forms under evaluation, the computation does the same and leaves that
number as it is. -/
def DepthFree (m : Run α) : Prop := ∀ s d, m (s.atDepth d) = Outcome.mapState (·.atDepth d) (m s)

theorem DepthFree.eq_mapState {m : Run α} (h : DepthFree m) (s : State) :
    m s = Outcome.mapState (·.atDepth s.depth) (m s) := h s s.depth

theorem DepthFree.depth_eq {m : Run α} (h : DepthFree m) (s : State) :
    (Outcome.state (m s)).depth = s.depth := by
  rw [h.eq_mapState s, Outcome.state_mapState, State.depth_atDepth]

theorem DepthFree.nested_eq {m : Run α} (h : DepthFree m) : Run.nested m = m := by
  funext s
  rw [nested_eq_mapState, h s (s.depth + 1), h.eq_mapState s]
  cases m s <;> rfl

def Congruence.depthFree : StateCongruence where
  Rel m _ := DepthFree m
  rel_pure _ _ _ := rfl
  rel_throw _ _ _ := rfl
  rel_bind hm hf s d :=
    bind_mapState (g := fun t => t.atDepth d) (hm s d) fun a t => hf a t d
  rel_read {α f _} hf hd _ s d := by
    change f (s.atDepth d) (s.atDepth d) = Outcome.mapState (·.atDepth d) (f s s)
    rw [hd, hf s s d]
  rel_print document s d := by
    rw [print_eq, print_eq]
    cases document.write <;> rfl
  rel_newClosure _ _ _ _ := rfl
  rel_defineGlobal name value s d := by
    rw [defineGlobal_eq, defineGlobal_eq]
    change (if s.globals.contains name then _ else _) = _
    split <;> rfl
  rel_defineMacro name transformer s d := by
    rw [defineMacro_eq, defineMacro_eq]
    change (if s.macros.contains name then _ else _) = _
    split <;> rfl

section Levels

variable {onName : Engine → Text → List Value → Environment → Run Value}
  (hname : Congruence.Parametric onName)
include hname

theorem depthFree_levelsBy (limit : Int) (levels : Nat) (v : Value) (env : Environment) :
    DepthFree (levelsBy onName Primitive.run limit levels v env) :=
  Congruence.depthFree.rel_levelsBy hname Congruence.depthFree.rel_primitive
    (fun h => by rwa [DepthFree.nested_eq h]) limit levels v env

/-- A form needs no more than a level. -/
theorem levelsBy_form (limit : Int) (levels : Nat) (head : Value) (args : List Value)
    (env : Environment) :
    levelsBy onName Primitive.run limit (levels + 1) (.list (head :: args)) env =
      formBy (onName ⟨levelsBy onName Primitive.run limit levels, Primitive.run⟩)
        ⟨levelsBy onName Primitive.run limit levels, Primitive.run⟩ head args env := by
  let engine : Engine := ⟨levelsBy onName Primitive.run limit levels, Primitive.run⟩
  have h : Congruence.depthFree.EngineRel engine engine :=
    ⟨depthFree_levelsBy hname limit levels, Congruence.depthFree.rel_primitive⟩
  have hform : Congruence.depthFree.Rel (formBy (onName engine) engine head args env)
      (formBy (onName engine) engine head args env) :=
    Congruence.rel_formBy h (hname h) head args env
  rw [levelsBy, evalWith]
  exact hform.nested_eq

end Levels

theorem depthFree_evalLevels (limits : Limits) (levels : Nat) (v : Value) (env : Environment) :
    DepthFree (evalLevels Primitive.run limits levels v env) := by
  rw [evalLevels_eq_levelsBy]
  exact depthFree_levelsBy (Congruence.parametric_evalNamed limits) limits.evaluation levels v env

@[simp] theorem depth_evaluate (limits : Limits) (v : Value) (env : Environment) (s : State) :
    (Outcome.state (evaluate limits v env s)).depth = s.depth :=
  (depthFree_evalLevels limits (levelsLeft limits s) v env).depth_eq s

/-! ### The recursion without levels -/

/-- The same from every state with `d` forms under evaluation, and without a change of that
number. -/
def Congruence.sameAtDepth (d : Nat) : StateCongruence where
  Rel m m' := ∀ s : State, s.depth = d → m' s = m s ∧ (Outcome.state (m s)).depth = d
  rel_pure _ _ hs := ⟨rfl, hs⟩
  rel_throw _ _ hs := ⟨rfl, hs⟩
  rel_bind {α β m m' f f'} hm hf s hs := by
    obtain ⟨hsame, hdepth⟩ := hm s hs
    cases h : m s with
    | ok a t =>
      rw [h] at hsame hdepth
      rw [bind_of_ok h, bind_of_ok hsame]
      exact hf a t hdepth
    | error e t =>
      rw [h] at hsame hdepth
      rw [bind_of_error h, bind_of_error hsame]
      exact ⟨rfl, hdepth⟩
  rel_read hf _ _ s hs := hf s s hs
  rel_print document s hs := by
    refine ⟨rfl, ?_⟩
    rw [print_eq]
    cases document.write <;> exact hs
  rel_newClosure _ _ _ hs := ⟨rfl, hs⟩
  rel_defineGlobal name value s hs := by
    refine ⟨rfl, ?_⟩
    rw [defineGlobal_eq]
    split <;> exact hs
  rel_defineMacro name transformer s hs := by
    refine ⟨rfl, ?_⟩
    rw [defineMacro_eq]
    split <;> exact hs

/-- Evaluation with the levels that the state leaves. -/
def evaluateBy (onName : Engine → Text → List Value → Environment → Run Value) (limit : Int) :
    Eval := fun v env s =>
  levelsBy onName Primitive.run limit (limit - s.depth).toNat v env s

theorem evaluate_eq_evaluateBy (limits : Limits) :
    evaluate limits = evaluateBy (evalNamed limits) limits.evaluation := by
  funext v env s
  rw [evaluate, evalLevels_eq_levelsBy]
  rfl

section Recursion

variable {onName : Engine → Text → List Value → Environment → Run Value}
  (hname : Congruence.Parametric onName)
include hname

/-- Where a number of levels is left, evaluation is that with this number of levels. -/
theorem engineRel_levels {limit : Int} {levels d : Nat} (h : (limit - d).toNat = levels) :
    (Congruence.sameAtDepth d).EngineRel
      ⟨levelsBy onName Primitive.run limit levels, Primitive.run⟩
      ⟨evaluateBy onName limit, Primitive.run⟩ where
  eval v env s hs := by
    refine ⟨?_, ((depthFree_levelsBy hname limit levels v env).depth_eq s).trans hs⟩
    change levelsBy onName Primitive.run limit (limit - s.depth).toNat v env s = _
    rw [hs, h]
  primitive := (Congruence.sameAtDepth d).rel_primitive

/-- A form is refused at the limit, and else evaluated with one more form under evaluation. -/
theorem evaluateBy_form (limit : Int) (head : Value) (args : List Value) (env : Environment)
    (s : State) :
    evaluateBy onName limit (.list (head :: args)) env s =
      if limit ≤ s.depth then .error (.nestedTooDeep limit) s
      else Run.nested (formBy (onName ⟨evaluateBy onName limit, Primitive.run⟩)
        ⟨evaluateBy onName limit, Primitive.run⟩ head args env) s := by
  unfold evaluateBy
  split
  · rename_i hfull
    have hnone : (limit - s.depth).toNat = 0 := by omega
    rw [hnone, levelsBy, evalWith]
    rfl
  · rename_i hroom
    obtain ⟨levels, hlevels⟩ : ∃ levels, (limit - s.depth).toNat = levels + 1 :=
      ⟨(limit - s.depth).toNat - 1, by omega⟩
    have h := engineRel_levels hname
      (show (limit - (s.depth + 1 : Nat)).toNat = levels by omega)
    have hform := Congruence.rel_formBy h (hname h) head args env
    rw [hlevels, levelsBy, evalWith]
    rw [nested_eq_mapState, nested_eq_mapState]
    exact congrArg _ (hform (s.atDepth (s.depth + 1)) rfl).1.symm

end Recursion

theorem evaluate_form (limits : Limits) (head : Value) (args : List Value) (env : Environment)
    (s : State) :
    evaluate limits (.list (head :: args)) env s =
      if limits.evaluation ≤ s.depth then .error (.nestedTooDeep limits.evaluation) s
      else Run.nested (evalForm limits (engine limits) head args env) s := by
  rw [engine, evalForm_eq_formBy, evaluate_eq_evaluateBy]
  exact evaluateBy_form (Congruence.parametric_evalNamed limits) limits.evaluation head args env s

end JsonLisp
