import JsonLisp.Proofs.Evaluation.Definitions
import JsonLisp.Proofs.Evaluation.Stepwise

/-!
# Forms and the levels that they take

What evaluation does with a form depends on its head: a special form runs, a macro call is expanded
and the expansion evaluated, and anything else is called. Code without effects is evaluated at every
depth alike, as long as it has the levels that it takes.

## Main definitions

* `CallsGlobal`: a name that calls a global value.
* `TakesLevels`: a computation without effects, its value and the levels that it takes.
* `NeedsLevels`: a computation that is refused without effects if there are fewer levels.

## Main statements

* `evaluate_special`, `evaluate_macroCall`: forms by their head.
* `evaluate_function`, `evaluate_macroDefinition`: the forms that make closures.
* `TakesLevels.form`, `TakesLevels.call`: the levels of a form are those of its parts and one more.
-/

namespace JsonLisp

open Text (ofString)

variable {limits : Limits} {s t : State} {env : Environment}

/-! ### Counting a form -/

section Nested

variable {α : Type} {m m' : Run α}

/-- What counts is what is done with one form more under evaluation. -/
theorem nested_congr (h : m (s.atDepth (s.depth + 1)) = m' (t.atDepth (t.depth + 1))) :
    Run.nested m s = Run.nested m' t := by
  rw [nested_eq_mapState, nested_eq_mapState, h]

theorem nested_of_ok {a : α}
    (h : m (s.atDepth (s.depth + 1)) = .ok a (t.atDepth (s.depth + 1))) :
    Run.nested m s = .ok a (t.atDepth s.depth) := by
  rw [nested_eq_mapState, h]
  rfl

theorem nested_of_error {e : Error}
    (h : m (s.atDepth (s.depth + 1)) = .error e (s.atDepth (s.depth + 1))) :
    Run.nested m s = .error e s := by
  rw [nested_eq_mapState, h]
  rfl

end Nested

/-! ### Forms by their head -/

theorem evaluate_full (h : limits.evaluation ≤ s.depth) (head : Value) (args : List Value)
    (env : Environment) :
    evaluate limits (.list (head :: args)) env s = .error (.nestedTooDeep limits.evaluation) s := by
  rw [evaluate_form, if_pos h]

theorem evaluate_special {name : Text} {form : SpecialForm}
    (hform : SpecialForm.ofName? name = some form) (hroom : s.depth < limits.evaluation)
    (args : List Value) (env : Environment) :
    evaluate limits (.list (.text name :: args)) env s =
      Run.nested (form.run (evaluate limits) env args) s := by
  rw [evaluate_form, if_neg (by omega), evalForm, hform]
  rfl

theorem evaluate_macroCall {name : Text} (hspecial : SpecialForm.ofName? name = none)
    (hmacros : s.macros.contains name = true) (hroom : s.depth < limits.evaluation)
    (args : List Value) (env : Environment) :
    evaluate limits (.list (.text name :: args)) env s =
      Run.nested (expandCall (engine limits) limits.expansion name args >>= fun form =>
        evaluate limits form env) s := by
  rw [evaluate_form, if_neg (by omega)]
  refine nested_congr ?_
  simp only [evalForm, hspecial]
  change (if s.macros.contains name = true then _ else _ : Run Value) _ = _
  rw [if_pos hmacros]
  rfl

/-- A name that calls no macro is called like any other value. -/
theorem evalForm_name {name : Text} (hspecial : SpecialForm.ofName? name = none)
    (hmacros : s.macros.contains name = false) (args : List Value) (env : Environment) :
    evalForm limits (engine limits) (.text name) args env s =
      evalCall (engine limits) (.text name) args env s := by
  simp only [evalForm, hspecial]
  change (if s.macros.contains name = true then _ else _ : Run Value) _ = _
  rw [if_neg (by simp [hmacros])]

/-! ### Expansion -/

theorem expandOnce_of_find? {engine : Engine} {name : Text} {transformer : Value}
    (h : s.macros.find? name = some transformer) (args : List Value) :
    expandOnce engine name args s = applyValue engine transformer args s := by
  rw [expandOnce, read_apply, h]

/-- A single step expands a call whose expansion is no macro call. -/
theorem expandCall_of_ok {engine : Engine} {name : Text} {args : List Value} {form : Value}
    (h : expandOnce engine name args s = .ok form t) (hform : macroCall? t.macros form = none)
    (limit : Int) : expandCall engine limit name args s = .ok form t := by
  rw [expandCall, bind_of_ok h, expandFurther_other hform]

/-! ### Closures -/

namespace State

/-- One more closure has been made. -/
def afterClosure (s : State) : State := { s with nextIdentity := s.nextIdentity + 1 }

/-- One more global name has been bound. -/
def afterGlobal (s : State) (name : Text) (value : Value) : State :=
  { s with
    globals := s.globals.add name value
    journal := .definedGlobal name :: s.journal }

/-- One more macro has been defined. -/
def afterMacro (s : State) (name : Text) (transformer : Value) : State :=
  { s with
    macros := s.macros.add name transformer
    journal := .definedMacro name :: s.journal }

end State

theorem defineGlobal_free {name : Text} (h : s.globals.contains name = false) (value : Value) :
    Run.defineGlobal name value s = .ok () (s.afterGlobal name value) := by
  rw [defineGlobal_eq, h]
  rfl

theorem defineMacro_free {name : Text} (h : s.macros.contains name = false) (transformer : Value) :
    Run.defineMacro name transformer s = .ok () (s.afterMacro name transformer) := by
  rw [defineMacro_eq, h]
  rfl

/-- A closure is made of the form as written, and takes one level. -/
theorem evaluate_function (hroom : s.depth < limits.evaluation) (part : Value)
    (parts : List Value) (env : Environment) :
    evaluate limits (.list (.word "fn" :: part :: parts)) env s =
      .ok (.closure s.nextIdentity (.word "fn" :: part :: parts) env) s.afterClosure := by
  have hspecial : SpecialForm.ofName? SpecialForm.fnName = some .function := rfl
  exact evaluate_special hspecial hroom (part :: parts) env

/-- The definition of a macro under a name that is free takes two levels. -/
theorem evaluate_macroDefinition {name : Text} (hfree : s.macros.contains name = false)
    (params body : List Value) (env : Environment) :
    evaluate limits (.list (.word "defmacro" :: .text name :: .list params :: body)) env s =
      if s.depth + 2 ≤ limits.evaluation then
        .ok (.text name) (s.afterClosure.afterMacro name
          (.closure s.nextIdentity (.word "fn" :: .list params :: body) env))
      else .error (.nestedTooDeep limits.evaluation) s := by
  have hspecial : SpecialForm.ofName? (ofString "defmacro") = some .macroDefinition := rfl
  have hrun := (runMacroDefinition_name (evaluate limits) env name params body
    (s.atDepth (s.depth + 1))).trans (if_neg (ne_true_of_eq_false hfree))
  by_cases hfull : limits.evaluation ≤ s.depth
  · rw [if_neg (by omega)]
    exact evaluate_full hfull _ _ env
  · refine (evaluate_special hspecial (by omega) _ env).trans ?_
    by_cases hroom : s.depth + 2 ≤ limits.evaluation
    · have hinside : (s.atDepth (s.depth + 1)).depth < limits.evaluation := by
        rw [State.depth_atDepth]
        omega
      have hmade := evaluate_function hinside (.list params) body env
      have hdefined := defineMacro_free (s := (s.atDepth (s.depth + 1)).afterClosure) hfree
        (.closure s.nextIdentity (.word "fn" :: .list params :: body) env)
      rw [if_pos hroom]
      exact nested_of_ok (t := s.afterClosure.afterMacro name _)
        (hrun.trans ((bind_of_ok hmade).trans (bind_of_ok hdefined)))
    · have hinside : limits.evaluation ≤ (s.atDepth (s.depth + 1)).depth := by
        rw [State.depth_atDepth]
        omega
      rw [if_neg hroom]
      exact nested_of_error (hrun.trans (bind_of_error (evaluate_full hinside _ _ env)))

/-- The definition of a function under a name that is free takes two levels. -/
theorem evaluate_functionDefinition {name : Text} (hfree : s.globals.contains name = false)
    (hroom : s.depth + 2 ≤ limits.evaluation) (part : Value) (parts : List Value)
    (env : Environment) :
    let made := Value.closure s.nextIdentity (.word "fn" :: part :: parts) env
    evaluate limits (.definition name (.list (.word "fn" :: part :: parts))) env s =
      .ok made (s.afterClosure.afterGlobal name made) := by
  intro made
  have hinside : (s.atDepth (s.depth + 1)).depth < limits.evaluation := by
    rw [State.depth_atDepth]
    omega
  have hmade := evaluate_function hinside part parts env
  have hdefined := defineGlobal_free (s := (s.atDepth (s.depth + 1)).afterClosure) hfree made
  have hrun := runDefine_name (evaluate limits) env name (.list (.word "fn" :: part :: parts))
    (s.atDepth (s.depth + 1))
  rw [evaluate_definition, if_neg (by omega)]
  exact nested_of_ok (t := s.afterClosure.afterGlobal name made)
    ((hrun.trans (if_neg (ne_true_of_eq_false hfree))).trans
      ((bind_of_ok hmade).trans (bind_of_ok hdefined)))

/-! ### Calls of global values -/

/-- At the head of a form the name means the global value. -/
structure CallsGlobal (s : State) (env : Environment) (x : Text) (f : Value) : Prop where
  special : SpecialForm.ofName? x = none
  macros : s.macros.contains x = false
  locals : env.find? x = none
  globals : s.globals.find? x = some f

namespace CallsGlobal

variable {x : Text} {f : Value}

theorem atDepth (h : CallsGlobal s env x f) (d : Nat) : CallsGlobal (s.atDepth d) env x f :=
  ⟨h.special, h.macros, h.locals, h.globals⟩

theorem evalForm_eq (h : CallsGlobal s env x f) (args : List Value) :
    evalForm limits (engine limits) (.text x) args env s =
      (evalArguments (evaluate limits) env args >>= applyValue (engine limits) f) s := by
  have hhead : evaluate limits (.text x) env s = .ok f s :=
    (evaluate_text ..).trans (lookup_global h.locals h.globals)
  exact (evalForm_name h.special h.macros args env).trans (bind_of_ok hhead)

end CallsGlobal

/-! ### Code without effects -/

/-- From the state `s`, at any depth, the computation returns `a` without effects if there are so
many levels left, and otherwise it is refused without effects. -/
def TakesLevels {α : Type} (limits : Limits) (s : State) (levels : Nat) (m : Run α) (a : α) :
    Prop :=
  ∀ d : Nat, m (s.atDepth d) =
    if levels ≤ levelsLeft limits (s.atDepth d) then .ok a (s.atDepth d)
    else .error (.nestedTooDeep limits.evaluation) (s.atDepth d)

namespace TakesLevels

variable {α β : Type} {m : Run α} {f : α → Run β} {a : α} {b : β} {v : Value} {n k : Nat}

theorem ok (h : TakesLevels limits s n m a) {d : Nat} (hroom : d + n ≤ limits.evaluation) :
    m (s.atDepth d) = .ok a (s.atDepth d) := by
  refine (h d).trans (if_pos ?_)
  rw [levelsLeft, State.depth_atDepth]
  omega

theorem refused (h : TakesLevels limits s (n + 1) m a) {d : Nat}
    (hfull : limits.evaluation < d + (n + 1 : Nat)) :
    m (s.atDepth d) = .error (.nestedTooDeep limits.evaluation) (s.atDepth d) := by
  refine (h d).trans (if_neg ?_)
  rw [levelsLeft, State.depth_atDepth]
  omega

protected theorem pure (a : α) : TakesLevels limits s 0 (pure a) a :=
  fun _ => (if_pos (Nat.zero_le _)).symm

protected theorem bind (hm : TakesLevels limits s n m a) (hf : TakesLevels limits s k (f a) b) :
    TakesLevels limits s (max n k) (m >>= f) b := by
  intro d
  have hfirst := hm d
  split at hfirst
  · rename_i hn
    rw [bind_of_ok hfirst, hf d]
    simp only [Nat.max_le, hn, true_and]
  · rename_i hn
    rw [bind_of_error hfirst, if_neg fun h => hn (Nat.max_le.1 h).1]

protected theorem map {g : α → β} (hm : TakesLevels limits s n m a) :
    TakesLevels limits s n (m >>= fun a => Pure.pure (g a)) (g a) := by
  have h : TakesLevels limits s (max n 0) (m >>= fun a => Pure.pure (g a)) (g a) :=
    hm.bind (.pure (g a))
  rwa [Nat.max_zero] at h

/-- A form takes one level more than what is done for it. -/
theorem form {head : Value} {args : List Value}
    (h : TakesLevels limits s n (evalForm limits (engine limits) head args env) v) :
    TakesLevels limits s (n + 1) (evaluate limits (.list (head :: args)) env) v := by
  intro d
  have hform := h (d + 1)
  unfold levelsLeft at hform ⊢
  rw [State.depth_atDepth] at hform ⊢
  by_cases hfull : limits.evaluation ≤ d
  · rw [if_neg (by omega)]
    exact evaluate_full hfull head args env
  · rw [evaluate_form, if_neg (by exact hfull)]
    split
    · rw [if_pos (by omega)] at hform
      exact nested_of_ok (t := s) hform
    · rw [if_neg (by omega)] at hform
      exact nested_of_error hform

theorem name {x : Text} (h : env.find? x = some v) :
    TakesLevels limits s 0 (evaluate limits (.text x) env) v := by
  intro d
  rw [evaluate_text, lookup, h]
  exact TakesLevels.pure v d

/-- A value that is no name, form or map means itself. -/
theorem constant (h : ∀ onForm, evalWith onForm v env = Pure.pure v) :
    TakesLevels limits s 0 (evaluate limits v env) v := by
  intro d
  rw [if_pos (Nat.zero_le _), evaluate]
  cases levelsLeft limits (s.atDepth d) <;> rw [evalLevels, h] <;> rfl

theorem bool (b : Bool) : TakesLevels limits s 0 (evaluate limits (.bool b) env) (.bool b) :=
  .constant fun _ => rfl

theorem int (n : Int) : TakesLevels limits s 0 (evaluate limits (.int n) env) (.int n) :=
  .constant fun _ => rfl

/-- The form that stands for `v` as it is. -/
theorem quote (v : Value) :
    TakesLevels limits s 1 (evaluate limits (.list [.word "", v]) env) v :=
  .form (.pure v)

theorem noArguments : TakesLevels limits s 0 (evalArguments (evaluate limits) env []) [] := .pure []

theorem argument {e : Value} {rest values : List Value}
    (he : TakesLevels limits s n (evaluate limits e env) v)
    (hrest : TakesLevels limits s k (evalArguments (evaluate limits) env rest) values) :
    TakesLevels limits s (max n k) (evalArguments (evaluate limits) env (e :: rest))
      (v :: values) :=
  he.bind hrest.map

/-- The call of a global value by its name. -/
theorem callGlobal {x : Text} {f : Value} {args values : List Value} (hx : CallsGlobal s env x f)
    (hargs : TakesLevels limits s n (evalArguments (evaluate limits) env args) values)
    (happly : TakesLevels limits s k (applyValue (engine limits) f values) v) :
    TakesLevels limits s (max n k + 1) (evaluate limits (.list (.text x :: args)) env) v :=
  .form fun d => ((hx.atDepth d).evalForm_eq args).trans (hargs.bind happly d)

/-- The call of a primitive by its global name, where it has no effects. -/
theorem call {x : Text} {p : Primitive} {args values : List Value}
    (hspecial : SpecialForm.ofName? x = none) (hmacros : s.macros.contains x = false)
    (hlocal : env.find? x = none) (hglobal : s.globals.find? x = some (.builtin x))
    (hp : Primitive.ofName? x = some p) (hrun : p.run values = Pure.pure v)
    (hargs : TakesLevels limits s n (evalArguments (evaluate limits) env args) values) :
    TakesLevels limits s (n + 1) (evaluate limits (.list (.text x :: args)) env) v := by
  have happly : applyValue (engine limits) (.builtin x) values = Pure.pure v := by
    rw [applyValue, applyBuiltin, hp]
    exact hrun
  have hvalue : TakesLevels limits s 0 (applyValue (engine limits) (.builtin x) values) v := by
    rw [happly]
    exact .pure v
  have hcall := TakesLevels.callGlobal ⟨hspecial, hmacros, hlocal, hglobal⟩ hargs hvalue
  rwa [Nat.max_zero] at hcall

end TakesLevels

/-! ### Code that may not end -/

/-- From the state `s`, at any depth, the computation is refused without effects if there are fewer
levels left. -/
def NeedsLevels {α : Type} (limits : Limits) (s : State) (levels : Nat) (m : Run α) : Prop :=
  ∀ d : Nat, levelsLeft limits (s.atDepth d) < levels →
    m (s.atDepth d) = .error (.nestedTooDeep limits.evaluation) (s.atDepth d)

namespace NeedsLevels

variable {α β : Type} {m : Run α} {f : α → Run β} {a : α} {n k : Nat}

protected theorem zero (m : Run α) : NeedsLevels limits s 0 m :=
  fun _ hfew => absurd hfew (Nat.not_lt_zero _)

theorem bind_left (h : NeedsLevels limits s n m) : NeedsLevels limits s n (m >>= f) :=
  fun d hfew => bind_of_error (h d hfew)

theorem bind_right (hm : TakesLevels limits s k m a) (h : NeedsLevels limits s n (f a)) :
    NeedsLevels limits s n (m >>= f) := by
  intro d hfew
  have hfirst := hm d
  split at hfirst
  · exact (bind_of_ok hfirst).trans (h d hfew)
  · exact bind_of_error hfirst

theorem form {head : Value} {args : List Value}
    (h : NeedsLevels limits s n (evalForm limits (engine limits) head args env)) :
    NeedsLevels limits s (n + 1) (evaluate limits (.list (head :: args)) env) := by
  intro d hfew
  by_cases hfull : limits.evaluation ≤ d
  · exact evaluate_full hfull head args env
  · have hinside : levelsLeft limits (s.atDepth (d + 1)) < n := by
      unfold levelsLeft at hfew ⊢
      rw [State.depth_atDepth] at hfew ⊢
      omega
    rw [evaluate_form, if_neg (by exact hfull)]
    exact nested_of_error (h (d + 1) hinside)

theorem callGlobal {x : Text} {g : Value} {args : List Value} (hx : CallsGlobal s env x g)
    (h : NeedsLevels limits s n
      (evalArguments (evaluate limits) env args >>= applyValue (engine limits) g)) :
    NeedsLevels limits s (n + 1) (evaluate limits (.list (.text x :: args)) env) :=
  .form fun d hfew => ((hx.atDepth d).evalForm_eq args).trans (h d hfew)

/-- What needs any number of levels is refused. -/
theorem refused (h : ∀ n, NeedsLevels limits s n m) (d : Nat) :
    m (s.atDepth d) = .error (.nestedTooDeep limits.evaluation) (s.atDepth d) :=
  h _ d (Nat.lt_succ_self _)

end NeedsLevels

end JsonLisp
