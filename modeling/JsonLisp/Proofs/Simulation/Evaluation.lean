import JsonLisp.Proofs.Evaluation.Definitions
import JsonLisp.Proofs.Simulation.Primitives

/-!
# Evaluation under a simulation

The evaluation of related forms in related environments, from related states, has related outcomes.
One lemma for each function of the evaluator carries this through; the recursion is on the levels
that are left.

## Main statements

* `Simulation.runs_applyValue`, `Simulation.runs_evalForm`: calls and forms.
* `Simulation.runs_evaluate`: evaluation in a session.
-/

namespace JsonLisp

open List (Forall₂)

/-- A way to evaluate under which `fn` forms with a list of parameters become transformers. -/
def MakesTransformers (ev : Eval) : Prop :=
  ∀ ⦃params body env s v t⦄,
    ev (.list (.text SpecialForm.fnName :: .list params :: body)) env s = .ok v t → v.IsTransformer

namespace Simulation

variable {W : Type} [Preorder W] (S : Simulation W)

/-- Two ways to evaluate that take related forms to related outcomes. -/
def Evals (ev ev' : Eval) : Prop :=
  ∀ ⦃w v v' env env'⦄, S.Val w v v' → S.Env w env env' → S.Runs w S.Val (ev v env) (ev' v' env')

structure Engines (e e' : Engine) : Prop where
  eval : S.Evals e.eval e'.eval
  primitive : ∀ ⦃w xs xs'⦄ p, Forall₂ (S.Val w) xs xs' →
    S.Runs w S.Val (e.primitive p xs) (e'.primitive p xs')
  transformers : MakesTransformers e.eval

variable {S} {w : W} {α β : Type} {ev ev' : Eval} {e e' : Engine} {env env' : Environment}

/-! ### Effects -/

theorem runs_displayed {R : W → α → β → Prop} {a b : Value} (h : S.Val w a b)
    (refusal : Text → Error) (hkind : ∀ shown, (refusal shown).kind.isForeseen = true) :
    S.Runs w R (do throw (refusal (← Run.ofExcept a.display)))
      (do throw (refusal (← Run.ofExcept b.display))) := by
  rw [← S.val_display h]
  cases hshown : a.display with
  | ok shown => exact runs_foreseen (hkind shown)
  | error e => exact runs_throw (S.possible_display h hshown)

theorem runs_encoded {R : W → α → β → Prop} {a b : Value} (h : S.Val w a b)
    (refusal : Text → Error) (hkind : ∀ shown, (refusal shown).kind.isForeseen = true) :
    S.Runs w R (do throw (refusal (← Run.ofExcept a.encode)))
      (do throw (refusal (← Run.ofExcept b.encode))) := by
  unfold Value.encode
  rw [← S.val_wire h]
  cases a.wire.write with
  | ok shown => exact runs_foreseen (hkind shown)
  | error fault => exact runs_foreseen rfl

theorem runs_defineGlobal (name : Text) {a b : Value} (h : S.Val w a b) :
    S.Runs w (fun _ => Eq) (Run.defineGlobal name a) (Run.defineGlobal name b) := by
  intro s t hst
  rw [defineGlobal_eq, defineGlobal_eq, ← globals_contains_eq hst]
  split
  · exact runs_foreseen rfl hst
  · rename_i hfresh
    exact .ok le_rfl rfl (S.st_defineGlobal name hst h (by simpa using hfresh))

theorem runs_defineMacro (name : Text) {a b : Value} (h : S.Val w a b) (ha : a.IsTransformer) :
    S.Runs w (fun _ => Eq) (Run.defineMacro name a) (Run.defineMacro name b) := by
  intro s t hst
  rw [defineMacro_eq, defineMacro_eq, ← macros_contains_eq hst]
  split
  · exact runs_foreseen rfl hst
  · rename_i hfresh
    exact .ok le_rfl rfl (S.st_defineMacro name hst h ha (by simpa using hfresh))

/-- What is known of all values of the first computation. -/
theorem Outcomes.and_left {R : W → α → β → Prop} {P : α → Prop} {r : Outcome Error α}
    {r' : Outcome Error β} (h : S.Outcomes w R r r') (hP : ∀ a t, r = .ok a t → P a) :
    S.Outcomes w (fun u a b => R u a b ∧ P a) r r' := by
  cases h with
  | ok hle hab hst => exact .ok hle ⟨hab, hP _ _ rfl⟩ hst
  | error hle he hst => exact .error hle he hst

/-! ### Special forms -/

section Parts

variable (hev : S.Evals ev ev')
include hev

theorem runs_evalSequence {forms forms' : List Value} (henv : S.Env w env env')
    (h : Forall₂ (S.Val w) forms forms') :
    S.Runs w S.Val (evalSequence ev env forms) (evalSequence ev' env' forms') := by
  induction forms generalizing w forms' with
  | nil =>
    cases h
    exact runs_pure (S.val_null w)
  | cons form rest ih =>
    cases h with
    | cons hform hrest =>
      cases hrest with
      | nil => exact hev hform henv
      | cons hnext hmore =>
        exact runs_bind (hev hform henv) fun hle _ =>
          ih (S.env_mono hle henv) (vals_mono hle (.cons hnext hmore))

theorem runs_evalArguments {forms forms' : List Value} (henv : S.Env w env env')
    (h : Forall₂ (S.Val w) forms forms') :
    S.Runs w (fun u => Forall₂ (S.Val u)) (evalArguments ev env forms)
      (evalArguments ev' env' forms') := by
  induction forms generalizing w forms' with
  | nil =>
    cases h
    exact runs_pure .nil
  | cons form rest ih =>
    cases h with
    | cons hform hrest =>
      refine runs_bind (hev hform henv) fun hle hvalue => ?_
      refine runs_bind (ih (S.env_mono hle henv) (vals_mono hle hrest)) fun hle' hvalues => ?_
      exact runs_pure (.cons (S.val_mono hle' hvalue) hvalues)

theorem runs_runDefine {parts parts' : List Value} (henv : S.Env w env env')
    (h : Forall₂ (S.Val w) parts parts') :
    S.Runs w S.Val (SpecialForm.runDefine ev env parts)
      (SpecialForm.runDefine ev' env' parts') := by
  cases h with
  | nil => exact runs_foreseen rfl
  | cons hname hrest =>
    cases hrest with
    | nil => cases S.val_similar hname <;> exact runs_foreseen rfl
    | cons hform hmore =>
      cases hmore with
      | cons => cases S.val_similar hname <;> exact runs_foreseen rfl
      | nil =>
        cases S.val_similar hname with
        | text name =>
          intro s t hst
          rw [runDefine_name, runDefine_name, ← globals_contains_eq hst]
          split
          · exact runs_foreseen rfl hst
          · refine runs_bind (hev hform henv) (fun _ hvalue => ?_) hst
            exact runs_bind (runs_defineGlobal name hvalue) fun hle _ =>
              runs_pure (S.val_mono hle hvalue)
        | null | bool | int | float | builtin | list | map | closure =>
          exact runs_displayed hname (.demanded .definedName) fun _ => rfl

theorem runs_runConditional {parts parts' : List Value} (henv : S.Env w env env')
    (h : Forall₂ (S.Val w) parts parts') :
    S.Runs w S.Val (SpecialForm.runConditional ev env parts)
      (SpecialForm.runConditional ev' env' parts') := by
  cases h with
  | nil => exact runs_foreseen rfl
  | cons htest hrest =>
    cases hrest with
    | nil => exact runs_foreseen rfl
    | cons hthen hmore =>
      cases hmore with
      | nil =>
        refine runs_bind (hev htest henv) fun hle hvalue => ?_
        rw [(S.val_similar hvalue).isTrue_eq]
        split
        · exact hev (S.val_mono hle hthen) (S.env_mono hle henv)
        · exact runs_pure (S.val_null _)
      | cons helse hmore =>
        cases hmore with
        | cons => exact runs_foreseen rfl
        | nil =>
          refine runs_bind (hev htest henv) fun hle hvalue => ?_
          rw [(S.val_similar hvalue).isTrue_eq]
          split
          · exact hev (S.val_mono hle hthen) (S.env_mono hle henv)
          · exact hev (S.val_mono hle helse) (S.env_mono hle henv)

theorem runs_runMacroDefinition (htransformers : MakesTransformers ev)
    {parts parts' : List Value} (henv : S.Env w env env') (h : Forall₂ (S.Val w) parts parts') :
    S.Runs w S.Val (SpecialForm.runMacroDefinition ev env parts)
      (SpecialForm.runMacroDefinition ev' env' parts') := by
  cases h with
  | nil => exact runs_foreseen rfl
  | cons hname hrest =>
    cases hrest with
    | nil => cases S.val_similar hname <;> exact runs_foreseen rfl
    | cons hparams hbody =>
      cases S.val_similar hname with
      | text name =>
        cases S.val_similar hparams with
        | list hlist =>
          intro s t hst
          rw [runMacroDefinition_name, runMacroDefinition_name, ← macros_contains_eq hst]
          split
          · exact runs_foreseen rfl hst
          · have hform := S.val_list (.cons (S.val_text w SpecialForm.fnName) (.cons hparams hbody))
            have hmade := (hev hform henv hst).and_left fun f u hf => htransformers hf
            refine outcomes_bind hmade fun _ hf => ?_
            exact runs_bind (runs_defineMacro name hf.1 hf.2) fun _ _ =>
              runs_pure (S.val_text _ name)
        | null | bool | int | float | text | builtin | map | closure => exact runs_foreseen rfl
      | null | bool | int | float | builtin | list | map | closure =>
        exact runs_displayed hname (.demanded .macroName) fun _ => rfl

theorem runs_specialForm (htransformers : MakesTransformers ev) (form : SpecialForm)
    {parts parts' : List Value} (henv : S.Env w env env') (h : Forall₂ (S.Val w) parts parts') :
    S.Runs w S.Val (form.run ev env parts) (form.run ev' env' parts') := by
  cases form with
  | quote =>
    cases h with
    | nil => exact runs_foreseen rfl
    | cons hform hrest =>
      cases hrest with
      | nil => exact runs_pure hform
      | cons hnext hmore => exact runs_pure (S.val_list (.cons hform (.cons hnext hmore)))
  | define => exact runs_runDefine hev henv h
  | conditional => exact runs_runConditional hev henv h
  | function =>
    cases h with
    | nil => exact runs_foreseen rfl
    | cons hparams hbody =>
      intro s t hst
      obtain ⟨u, hle, hclosure, hst'⟩ :=
        S.st_newClosure hst henv (List.cons_ne_nil _ _) (.cons hparams hbody)
      exact .ok hle hclosure hst'
  | macroDefinition => exact runs_runMacroDefinition hev htransformers henv h
  | sequence => exact runs_evalSequence hev henv h

theorem runs_applyClosure {i j : Nat} {form form' : List Value} {scope scope' : Environment}
    {args args' : List Value}
    (hclosure : S.Val w (.closure i form scope) (.closure j form' scope'))
    (hform : Forall₂ (S.Val w) form form') (hscope : S.Env w scope scope')
    (hargs : Forall₂ (S.Val w) args args') :
    S.Runs w S.Val (applyClosure ev form scope args) (applyClosure ev' form' scope' args') := by
  cases hform with
  | nil => exact runs_throw (S.possible_noParameterList hclosure (by decide))
  | cons _ hrest =>
    cases hrest with
    | nil => exact runs_throw (S.possible_noParameterList hclosure (by simp))
    | cons hparams hbody =>
      cases S.val_similar hparams with
      | list hlist =>
        refine runs_bind (runs_ofExcept (R := S.Frames) (results_bindPattern hlist hargs)) ?_
        intro u frame frame' hle hframe
        exact runs_evalSequence hev (S.env_extend (S.env_mono hle hscope) hframe)
          (vals_mono hle hbody)
      | null | bool | int | float | text | builtin | map | closure =>
        exact runs_encoded hparams (.demanded .parameterList) fun _ => rfl

end Parts

/-! ### Calls and macros -/

theorem results_applyMap {es es' : List (Text × Value)} {args args' : List Value}
    (hes : Forall₂ (SameName (S.Val w)) es es') (hargs : Forall₂ (S.Val w) args args') :
    S.Results (S.Val w) (applyMap es args) (applyMap es' args') := by
  cases hargs with
  | nil => exact results_foreseen rfl
  | cons hkey hrest =>
    cases S.val_similar hkey with
    | text key =>
      have hunder := valueUnder?_rel hes key
      rw [applyMap, applyMap]
      generalize valueUnder? key es = under at hunder
      generalize valueUnder? key es' = under' at hunder
      cases hunder with
      | none => exact .ok (S.val_null w)
      | some hvalue => exact .ok hvalue
    | null | bool | int | float | builtin | list | map | closure =>
      exact results_encoded hkey .invalidKey fun _ => rfl

section Calls

variable (h : S.Engines e e')
include h

theorem runs_applyValue {f f' : Value} {args args' : List Value} (hf : S.Val w f f')
    (hargs : Forall₂ (S.Val w) args args') :
    S.Runs w S.Val (applyValue e f args) (applyValue e' f' args') := by
  cases S.val_similar hf with
  | map hes => exact runs_ofExcept (results_applyMap hes hargs)
  | closure hform hscope => exact runs_applyClosure h.eval hf hform hscope hargs
  | builtin name =>
    change S.Runs w S.Val (applyBuiltin e name args) (applyBuiltin e' name args')
    unfold applyBuiltin
    cases hname : Primitive.ofName? name with
    | some p => exact h.primitive p hargs
    | none => exact runs_throw (S.possible_undefined hf hname)
  | null | bool | int | float | text | list =>
    exact runs_encoded hf .notAFunction fun _ => rfl

theorem runs_evalCall {head head' : Value} {args args' : List Value} (hhead : S.Val w head head')
    (hargs : Forall₂ (S.Val w) args args') (henv : S.Env w env env') :
    S.Runs w S.Val (evalCall e head args env) (evalCall e' head' args' env') := by
  refine runs_bind (h.eval hhead henv) fun hle hf => ?_
  refine runs_bind (runs_evalArguments h.eval (S.env_mono hle henv) (vals_mono hle hargs)) ?_
  intro u values values' hle' hvalues
  exact runs_applyValue h (S.val_mono hle' hf) hvalues

/-- A macro is expanded by a related transformer, or by that of parallel bindings. -/
theorem outcomes_expandOnce {name : Text} {args args' : List Value} {s t : State}
    (hst : S.St w s t) (hbound : s.macros.contains name = true)
    (hargs : Forall₂ (S.Val w) args args') :
    S.Outcomes w S.Val (expandOnce e name args s) (expandOnce e' name args' t) := by
  obtain ⟨f, hfound⟩ := Table.contains_iff_find?.1 hbound
  have hmacro := S.st_macros name hst
  rw [hfound] at hmacro
  unfold expandOnce
  rw [read_apply, read_apply, hfound]
  generalize t.macros.find? name = found at hmacro
  cases hmacro with
  | some hf =>
    obtain hf | ⟨rfl, rfl⟩ := hf
    · exact runs_applyValue h hf hargs hst
    · exact h.primitive .parallelBinding hargs hst

/-- Macro calls of the same macro with related arguments. -/
def CallsRel (S : Simulation W) (w : W) (s : State) (c d : Text × List Value) : Prop :=
  c.1 = d.1 ∧ s.macros.contains c.1 = true ∧ Forall₂ (S.Val w) c.2 d.2

omit h in
theorem macroCall?_rel {s t : State} (hst : S.St w s t) {form form' : Value}
    (hform : S.Val w form form') :
    Option.Rel (S.CallsRel w s) (macroCall? s.macros form) (macroCall? t.macros form') := by
  cases S.val_similar hform with
  | list hlist =>
    cases hlist with
    | nil => exact .none
    | @cons head head' args args' hhead hargs =>
      cases S.val_similar hhead with
      | text name =>
        unfold macroCall?
        dsimp only
        rw [← macros_contains_eq hst]
        split
        · rename_i hcall
          exact .some ⟨rfl, (Bool.and_eq_true_iff.1 hcall).2, hargs⟩
        · exact .none
      | null | bool | int | float | builtin | list | map | closure => exact .none
  | null | bool | int | float | text | builtin | map | closure => exact .none

theorem runs_expandFurther (limit : Int) (steps : Nat) {form form' : Value}
    (hform : S.Val w form form') :
    S.Runs w S.Val (expandFurther e limit steps form) (expandFurther e' limit steps form') := by
  induction steps generalizing w form form' with
  | zero =>
    intro s t hst
    have hcall := macroCall?_rel hst hform
    unfold expandFurther
    rw [read_apply, read_apply]
    generalize macroCall? s.macros form = call at hcall
    generalize macroCall? t.macros form' = call' at hcall
    cases hcall with
    | none => exact runs_pure hform hst
    | @some c d hcd =>
      obtain ⟨name, args⟩ := c
      obtain ⟨name', args'⟩ := d
      obtain ⟨rfl, hbound, hargs⟩ := hcd
      exact runs_foreseen rfl hst
  | succ steps ih =>
    intro s t hst
    have hcall := macroCall?_rel hst hform
    unfold expandFurther
    rw [read_apply, read_apply]
    generalize macroCall? s.macros form = call at hcall
    generalize macroCall? t.macros form' = call' at hcall
    cases hcall with
    | none => exact runs_pure hform hst
    | @some c d hcd =>
      obtain ⟨name, args⟩ := c
      obtain ⟨name', args'⟩ := d
      obtain ⟨rfl, hbound, hargs⟩ := hcd
      exact outcomes_bind (outcomes_expandOnce h hst hbound hargs) fun _ hnext => ih hnext

theorem runs_evalNamed (limits : Limits) (name : Text) {args args' : List Value}
    (hargs : Forall₂ (S.Val w) args args') (henv : S.Env w env env') :
    S.Runs w S.Val (evalNamed limits e name args env) (evalNamed limits e' name args' env') := by
  intro s t hst
  unfold evalNamed
  rw [read_apply, read_apply, ← macros_contains_eq hst]
  split
  · rename_i hbound
    refine outcomes_bind (R := S.Val) ?_ fun hle hform => h.eval hform (S.env_mono hle henv)
    exact outcomes_bind (outcomes_expandOnce h hst hbound hargs) fun _ hform =>
      runs_expandFurther h _ _ hform
  · exact runs_evalCall h (S.val_text w name) hargs henv hst

theorem runs_evalForm (limits : Limits) {head head' : Value} {args args' : List Value}
    (hhead : S.Val w head head') (hargs : Forall₂ (S.Val w) args args')
    (henv : S.Env w env env') :
    S.Runs w S.Val (evalForm limits e head args env) (evalForm limits e' head' args' env') := by
  cases S.val_similar hhead with
  | text name =>
    unfold evalForm
    dsimp only
    cases SpecialForm.ofName? name with
    | some form => exact runs_specialForm h.eval h.transformers form henv hargs
    | none => exact runs_evalNamed h limits name hargs henv
  | null | bool | int | float | builtin | list | map | closure =>
    exact runs_evalCall h hhead hargs henv

end Calls

/-! ### Values of all kinds -/

/-- Two ways to evaluate forms that take related parts to related outcomes. -/
def EvalsForms (S : Simulation W)
    (onForm onForm' : Value → List Value → Environment → Run Value) : Prop :=
  ∀ ⦃w head head' args args' env env'⦄, S.Val w head head' → Forall₂ (S.Val w) args args' →
    S.Env w env env' → S.Runs w S.Val (onForm head args env) (onForm' head' args' env')

section Values

variable {onForm onForm' : Value → List Value → Environment → Run Value}

theorem map_fst_evalEntries {entries entries' : List (Text × Value)} {env : Environment}
    {s t : State} (h : evalEntries onForm entries env s = .ok entries' t) :
    entries'.map Prod.fst = entries.map Prod.fst := by
  induction entries generalizing entries' s t with
  | nil =>
    cases h
    rfl
  | cons e rest ih =>
    obtain ⟨value, u, -, h⟩ := bind_eq_ok h
    obtain ⟨later, u', hlater, h⟩ := bind_eq_ok h
    cases h
    rw [List.map_cons, List.map_cons, ih hlater]

/-- Related outcomes for a value that the simulation relates to another one. -/
def EvalsValue (S : Simulation W)
    (onForm onForm' : Value → List Value → Environment → Run Value) (v : Value) : Prop :=
  ∀ ⦃w v' env env'⦄, S.Val w v v' → S.Env w env env' →
    S.Runs w S.Val (evalWith onForm v env) (evalWith onForm' v' env')

theorem runs_evalEntries {es es' : List (Text × Value)} (henv : S.Env w env env')
    (hvalues : ∀ e ∈ es, S.EvalsValue onForm onForm' e.2)
    (h : Forall₂ (SameName (S.Val w)) es es') :
    S.Runs w (fun u => Forall₂ (SameName (S.Val u))) (evalEntries onForm es env)
      (evalEntries onForm' es' env') := by
  induction es generalizing w es' with
  | nil =>
    cases h
    exact runs_pure .nil
  | cons e rest ih =>
    cases h with
    | cons he hrest =>
      refine runs_bind (hvalues e List.mem_cons_self he.2 henv) fun hle hvalue => ?_
      have hvalues' := fun f hf => hvalues f (List.mem_cons_of_mem e hf)
      refine runs_bind (ih (S.env_mono hle henv) hvalues' (entries_mono hle hrest)) ?_
      intro u' entries entries' hle' hentries
      exact runs_pure (.cons ⟨he.1, S.val_mono hle' hvalue⟩ hentries)

theorem runs_evalWith (hform : S.EvalsForms onForm onForm') (v : Value) :
    S.EvalsValue onForm onForm' v := by
  intro w v' env env' hv henv
  induction v generalizing w v' env env' with
  | text name =>
    cases S.val_similar hv
    exact runs_lookup henv name
  | list items _ =>
    cases S.val_similar hv with
    | list hitems =>
      cases hitems with
      | nil => exact runs_pure hv
      | cons hhead hargs => exact hform hhead hargs henv
  | map entries ih =>
    cases S.val_similar hv with
    | map hentries =>
      intro s t hst
      have hrun := runs_evalEntries henv (fun e he _ _ _ _ hv henv => ih e he hv henv) hentries hst
      refine outcomes_bind (hrun.and_left fun _ _ => map_fst_evalEntries) fun _ hes => ?_
      exact runs_pure (S.val_sameKeys hv hes.2 hes.1)
  | null | bool | int | float | builtin | closure =>
    cases S.val_similar hv
    exact runs_pure hv

end Values

/-! ### Levels -/

theorem runs_evalLevels (limits : Limits) (levels : Nat) :
    S.Engines ⟨evalLevels Primitive.run limits levels, Primitive.run⟩
      ⟨evalLevels Primitive.run limits levels, Primitive.run⟩ := by
  induction levels with
  | zero =>
    refine ⟨fun w v v' env env' => ?_, fun w xs xs' p => runs_primitive p, ?_⟩
    · intro hv henv
      exact runs_evalWith (fun _ _ _ _ _ _ _ _ _ _ => runs_foreseen rfl) v hv henv
    · intro params body env s v t h
      cases h
  | succ levels ih =>
    refine ⟨fun w v v' env env' => ?_, fun w xs xs' p => runs_primitive p, ?_⟩
    · intro hv henv
      refine runs_evalWith (fun _ _ _ _ _ _ _ hhead hargs henv => ?_) v hv henv
      exact runs_nested (runs_evalForm ih limits hhead hargs henv)
    · intro params body env s v t h
      cases h
      exact ⟨_, _, _, _, rfl⟩

variable (S)

/-- Evaluation in a session. -/
theorem runs_evaluate (limits : Limits) : S.Evals (evaluate limits) (evaluate limits) := by
  intro w v v' env env' hv henv s t hst
  unfold evaluate levelsLeft
  rw [← S.st_depth hst]
  exact (runs_evalLevels limits _).eval hv henv hst

theorem engines (limits : Limits) : S.Engines (engine limits) (engine limits) := by
  refine ⟨S.runs_evaluate limits, fun w xs xs' p => runs_primitive p, ?_⟩
  intro params body env s v t h
  exact (runs_evalLevels (S := S) limits (levelsLeft limits s)).transformers h

end Simulation

end JsonLisp
