import JsonLisp.Proofs.Evaluation.Depth
import JsonLisp.Proofs.Evaluation.Limits

/-!
# Expansion step by step

A macro call can be evaluated without a loop: it is expanded once, and the result is evaluated like
any other value. Every step of expansion then counts as a form, so that the limit of nesting alone
bounds the expansions. Evaluation with the loop takes the same steps at a smaller depth.

## Main definitions

* `evaluateStepwise`: evaluation with one step of expansion at a time.
* `evaluate_eq_stepwise`: the loop makes no difference, unless a guard ends the evaluation.
-/

namespace JsonLisp

open Outcome (CutsShort hitsGuard)

/-- A macro call is expanded once and the result evaluated. -/
def evalNamedOnce (engine : Engine) (name : Text) (args : List Value) (env : Environment) :
    Run Value := do
  if (← get).macros.contains name then
    let expansion ← expandOnce engine name args
    engine.eval expansion env
  else evalCall engine (.text name) args env

/-- Stepwise evaluation with a number of levels left for forms. -/
def stepwiseLevels (limit : Int) : Nat → Eval := levelsBy evalNamedOnce Primitive.run limit

/-- Evaluation with one step of expansion at a time. There is no limit but that of nesting. -/
def evaluateStepwise (limit : Int) : Eval := evaluateBy evalNamedOnce limit

theorem Congruence.parametric_evalNamedOnce : Congruence.Parametric evalNamedOnce := by
  intro C e e' h name args env
  refine C.rel_readMacros (fun s => ?_) (fun _ _ h => by simp only [h])
    (fun _ _ h => by simp only [h])
  split
  · exact C.rel_bind (rel_expandOnce h name args) fun form => h.eval form env
  · exact rel_evalCall h _ args env

/-- Stepwise evaluation is a recursion without loop: a macro call is handed back to it after one
expansion. -/
theorem evaluateStepwise_form (limit : Int) (head : Value) (args : List Value)
    (env : Environment) (s : State) :
    evaluateStepwise limit (.list (head :: args)) env s =
      if limit ≤ s.depth then .error (.nestedTooDeep limit) s
      else Run.nested (formBy (evalNamedOnce ⟨evaluateStepwise limit, Primitive.run⟩)
        ⟨evaluateStepwise limit, Primitive.run⟩ head args env) s :=
  evaluateBy_form Congruence.parametric_evalNamedOnce limit head args env s

/-! ### Macro calls -/

/-- The test of the loop is that of evaluation: no special form, and a macro of that name. -/
theorem macroCall?_eq_some {macros : Table} {form : Value} {name : Text} {args : List Value} :
    macroCall? macros form = some (name, args) ↔
      form = .list (.text name :: args) ∧ SpecialForm.ofName? name = none ∧
        macros.contains name = true := by
  fun_cases macroCall? macros form with
  | case1 other parts hcall =>
    simp only [Bool.and_eq_true, Option.isNone_iff_eq_none] at hcall
    grind
  | case2 other parts hcall =>
    simp only [Bool.and_eq_true, Option.isNone_iff_eq_none] at hcall
    grind
  | case3 => grind

/-- One step of expansion takes one level. -/
theorem stepwiseLevels_macroCall {s : State} {form : Value} {name : Text} {args : List Value}
    (h : macroCall? s.macros form = some (name, args)) (limit : Int) (levels : Nat)
    (env : Environment) :
    stepwiseLevels limit (levels + 1) form env s =
      (expandOnce ⟨stepwiseLevels limit levels, Primitive.run⟩ name args >>= fun expansion =>
        stepwiseLevels limit levels expansion env) s := by
  obtain ⟨rfl, hspecial, hbound⟩ := macroCall?_eq_some.1 h
  unfold stepwiseLevels
  rw [levelsBy_form Congruence.parametric_evalNamedOnce]
  simp only [formBy, hspecial]
  change (if s.macros.contains name then _ else _ : Run Value) s = _
  rw [if_pos hbound]

/-- The loop returns a form that is no macro call. -/
theorem expandFurther_other {s : State} {form : Value} (h : macroCall? s.macros form = none)
    (engine : Engine) (limit : Int) (steps : Nat) :
    expandFurther engine limit steps form s = .ok form s := by
  cases steps <;> rw [expandFurther, read_apply, h] <;> rfl

/-- The loop takes a step at a macro call. -/
theorem expandFurther_macroCall {s : State} {form : Value} {name : Text} {args : List Value}
    (h : macroCall? s.macros form = some (name, args)) (engine : Engine) (limit : Int)
    (steps : Nat) :
    expandFurther engine limit (steps + 1) form s =
      (expandOnce engine name args >>= expandFurther engine limit steps) s := by
  rw [expandFurther, read_apply, h]

/-! ### The loop beside the steps -/

section Loop

variable (limits : Limits)

/-- With at least as many levels, evaluation does what stepwise evaluation does. -/
def LevelsCover (levels : Nat) : Prop :=
  ∀ levels', levels ≤ levels' → ∀ v env,
    CutShort (stepwiseLevels limits.evaluation levels v env)
      (evalLevels Primitive.run limits levels' v env)

/-- With at least as many levels and as many steps left, the loop and then evaluation do what
stepwise evaluation does. -/
def LoopCovers (levels : Nat) : Prop :=
  ∀ levels' steps, levels ≤ levels' → levels ≤ steps → ∀ form env,
    CutShort (stepwiseLevels limits.evaluation levels form env)
      (expandFurther ⟨evalLevels Primitive.run limits levels', Primitive.run⟩
        (max limits.expansion 1) steps form >>= fun expansion =>
          evalLevels Primitive.run limits levels' expansion env)

variable {limits} {levels : Nat}

theorem LevelsCover.engineRel (h : LevelsCover limits levels) {levels' : Nat}
    (hle : levels ≤ levels') :
    Congruence.cutShort.EngineRel
      ⟨stepwiseLevels limits.evaluation levels, Primitive.run⟩
      ⟨evalLevels Primitive.run limits levels', Primitive.run⟩ :=
  ⟨h levels' hle, Congruence.cutShort.rel_primitive⟩

theorem levelsCover_zero : LevelsCover limits 0 := fun levels' _ v env =>
  cutShort_noLevels limits.evaluation limits levels' v env

theorem LevelsCover.succ (h : LevelsCover limits levels) (hloop : LoopCovers limits levels)
    (hsteps : levels + 1 ≤ limits.expansion.toNat) : LevelsCover limits (levels + 1) := by
  intro levels' hle v env
  obtain ⟨more, rfl⟩ : ∃ more, levels' = more + 1 := ⟨levels' - 1, by omega⟩
  have hrel := h.engineRel (show levels ≤ more by omega)
  refine Congruence.cutShort.rel_evalWith (fun head args env => CutShort.nested ?_) v env
  rw [evalForm_eq_formBy]
  refine Congruence.rel_formBy hrel (fun name args env => CutShort.read fun s => ?_) head args env
  split
  · unfold expandCall
    rw [bind_assoc]
    exact .bind (Congruence.rel_expandOnce hrel name args) fun form =>
      hloop more _ (by omega) (by omega) form env
  · exact Congruence.rel_evalCall hrel _ args env

theorem onlyGrows_loop (limits : Limits) (levels steps : Nat) (form : Value)
    (env : Environment) :
    OnlyGrows (expandFurther ⟨evalLevels Primitive.run limits levels, Primitive.run⟩
      (max limits.expansion 1) steps form >>= fun expansion =>
        evalLevels Primitive.run limits levels expansion env) :=
  .bind (Congruence.rel_expandFurther (growthRel_evalLevels limits levels) _ steps form)
    fun expansion => onlyGrows_evalLevels limits levels expansion env

/-- Where the loop has nothing to expand, evaluation alone has to cover the steps. -/
theorem LevelsCover.loop_other (h : LevelsCover limits levels) {levels' : Nat}
    (hle : levels ≤ levels') (steps : Nat) (env : Environment) {s : State} {form : Value}
    (hother : macroCall? s.macros form = none) :
    CutsShort (stepwiseLevels limits.evaluation levels form env s)
      ((expandFurther ⟨evalLevels Primitive.run limits levels', Primitive.run⟩
        (max limits.expansion 1) steps form >>= fun expansion =>
          evalLevels Primitive.run limits levels' expansion env) s) := by
  rw [bind_of_ok (expandFurther_other hother _ _ steps)]
  exact (h levels' hle form env).1 s

theorem loopCovers_zero : LoopCovers limits 0 := by
  intro levels' steps hle _ form env
  refine ⟨fun s => ?_, onlyGrows_loop limits levels' steps form env⟩
  cases hcall : macroCall? s.macros form with
  | none => exact levelsCover_zero.loop_other hle steps env hcall
  | some call =>
    -- A macro call is a form, and there is no level for it.
    obtain ⟨rfl, -, -⟩ := macroCall?_eq_some.1 hcall
    have hgrows := onlyGrows_loop limits levels' steps (.list (.text call.1 :: call.2)) env s
    unfold stepwiseLevels levelsBy
    rw [evalWith]
    exact Outcome.cutsShort_of_guard rfl hgrows

theorem LoopCovers.succ (hcover : LevelsCover limits (levels + 1))
    (hlevels : LevelsCover limits levels) (hloop : LoopCovers limits levels) :
    LoopCovers limits (levels + 1) := by
  intro levels' steps hle hsteps form env
  obtain ⟨more, rfl⟩ : ∃ more, steps = more + 1 := ⟨steps - 1, by omega⟩
  refine ⟨fun s => ?_, onlyGrows_loop limits levels' (more + 1) form env⟩
  cases hcall : macroCall? s.macros form with
  | none => exact hcover.loop_other hle (more + 1) env hcall
  | some call =>
    -- Both take the same step, with a level less for the steps and a step less for the loop.
    have hrel := hlevels.engineRel (show levels ≤ levels' by omega)
    have hbind := CutShort.bind (Congruence.rel_expandOnce hrel call.1 call.2) fun next =>
      hloop levels' more (by omega) (by omega) next env
    rw [stepwiseLevels_macroCall hcall, bind_congr_left (expandFurther_macroCall hcall _ _ more),
      bind_assoc]
    exact hbind.1 s

/-- As long as the limit of expansion allows a step for each level, evaluation with the loop does
what stepwise evaluation does. -/
theorem levels_and_loop_cover (hlevels : levels ≤ limits.expansion.toNat) :
    LevelsCover limits levels ∧ LoopCovers limits levels := by
  induction levels with
  | zero => exact ⟨levelsCover_zero, loopCovers_zero⟩
  | succ levels ih =>
    obtain ⟨hcover, hloop⟩ := ih (by omega)
    have hnext := hcover.succ hloop hlevels
    exact ⟨hnext, LoopCovers.succ hnext hcover hloop⟩

end Loop

/-- Where no guard ends stepwise evaluation, evaluation with the loop has the same outcome: the same
value or error and the same state. It may have the same limit of nesting, and any limit of
expansion that is not smaller than this. -/
theorem evaluate_eq_stepwise {limits : Limits} (hlimits : limits.evaluation ≤ limits.expansion)
    (v : Value) (env : Environment) (s : State)
    (hends : hitsGuard (evaluateStepwise limits.evaluation v env s) = false) :
    evaluate limits v env s = evaluateStepwise limits.evaluation v env s := by
  have hlevels : levelsLeft limits s ≤ limits.expansion.toNat := by
    unfold levelsLeft
    omega
  have hcut := ((levels_and_loop_cover hlevels).1 _ (Nat.le_refl _) v env).1 s
  unfold CutsShort at hcut
  rw [if_neg (by rw [Bool.not_eq_true]; exact hends)] at hcut
  exact hcut

/-- In `["do", ["defmacro", "b", [], ["", ["", 7]]], ["defmacro", "a", [], ["", ["b"]]], ["a"]]` a
macro is called whose expansion calls another one. -/
theorem evaluate_eq_stepwise_twoMacros :
    let v : Value := .list [.word "do",
      .list [.word "defmacro", .word "b", .list [],
        .list [.word "", .list [.word "", .int 7]]],
      .list [.word "defmacro", .word "a", .list [], .list [.word "", .list [.word "b"]]],
      .list [.word "a"]]
    hitsGuard (evaluateStepwise 4 v .root .empty) = false ∧
      evaluate ⟨4, 4⟩ v .root .empty = evaluateStepwise 4 v .root .empty := by
  intro v
  have hends : hitsGuard (evaluateStepwise 4 v .root .empty) = false := by decide +kernel
  exact ⟨hends, evaluate_eq_stepwise (by decide) v .root .empty hends⟩

end JsonLisp
