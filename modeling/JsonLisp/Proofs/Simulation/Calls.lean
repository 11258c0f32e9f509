import JsonLisp.Proofs.Evaluation.Termination
import JsonLisp.Proofs.Simulation.Evaluation

/-!
# Calls under a simulation

A simulation that relates a run to itself says what is known of the values in it. It says so not
only of the outcome: each call that begins in the run, at any depth and whatever comes after it, is
given values that are known, and so are the calls around it and all values that have been returned
to these. Programs with their calls left as calls have one rule for each function, and the induction
is on the run.

## Main definitions

* `Recursion.Begins`: a call that begins in a run, with the calls around it.
* `Simulation.Upholds`: programs of which each step keeps what the simulation says.

## Main statements

* `Simulation.upholds_body`: what is called upholds the simulation.
* `Simulation.Upholds.ends`, `Simulation.Upholds.begins`: the end of a run, and each call in it.
-/

namespace JsonLisp

open List (Forall₂)

/-! ### Calls that begin -/

namespace Recursion

/-- From the state `s` the run of a program comes to the call `c`, which begins in the state `u`.
The calls of `stack` are then under way, outermost first, and the values of `returned` have come
back to the program and to them. The run need not end. -/
inductive Begins (limits : Limits) (c : Call) (u : State) :
    {α : Type} → Program α → State → List Call → List Value → Prop
  | here {α : Type} (k : Value → Program α) : Begins limits c u (.call c k) u [] []
  | effect {α β : Type} {m : Run β} {k : β → Program α} {s t : State} {b : β} {stack : List Call}
      {returned : List Value} (hm : m s = .ok b t)
      (hk : Begins limits c u (k b) t stack returned) :
      Begins limits c u (.effect m k) s stack returned
  | inside {α : Type} {d : Call} {k : Value → Program α} {s : State} {stack : List Call}
      {returned : List Value} (hd : Begins limits c u (body limits d) s stack returned) :
      Begins limits c u (.call d k) s (d :: stack) returned
  | after {α : Type} {d : Call} {k : Value → Program α} {s t : State} {v : Value}
      {stack : List Call} {returned : List Value} (hd : Ends limits (body limits d) s (.ok v t))
      (hk : Begins limits c u (k v) t stack returned) :
      Begins limits c u (.call d k) s stack (v :: returned)
  | nested {α : Type} {p : Program Value} {k : Value → Program α} {s : State}
      {stack : List Call} {returned : List Value}
      (hp : Begins limits c u p (s.atDepth (s.depth + 1)) stack returned) :
      Begins limits c u (.nested p k) s stack returned
  | afterNested {α : Type} {p : Program Value} {k : Value → Program α} {s t : State} {v : Value}
      {stack : List Call} {returned : List Value}
      (hp : Ends limits p (s.atDepth (s.depth + 1)) (.ok v t))
      (hk : Begins limits c u (k v) (t.atDepth (t.depth - 1)) stack returned) :
      Begins limits c u (.nested p k) s stack (v :: returned)

namespace Begins

variable {limits : Limits} {c : Call} {u : State} {α β : Type} {p : Program α} {f : α → Program β}
  {s t : State} {stack : List Call} {returned : List Value}

/-- The calls that begin in a call begin in its run. -/
theorem trans {d : Call} {x : State} {inner : List Call} {later : List Value}
    (h : Begins limits c u p s stack returned)
    (hd : Begins limits d x (body limits c) u inner later) :
    Begins limits d x p s (stack ++ c :: inner) (returned ++ later) := by
  induction h with
  | here k => exact .inside hd
  | effect hm _ ih => exact .effect hm ih
  | inside _ ih => exact .inside ih
  | after hend _ ih => exact .after hend ih
  | nested _ ih => exact .nested ih
  | afterNested hend _ ih => exact .afterNested hend ih

/-- In the second of two programs, after the first. -/
theorem bind_right {a : α} (h : Ends limits p s (.ok a t))
    (hf : Begins limits c u (f a) t stack returned) :
    ∃ earlier, Begins limits c u (p >>= f) s stack (earlier ++ returned) := by
  generalize hok : (.ok a t : Outcome Error α) = r at h
  induction h with
  | pure =>
    cases hok
    exact ⟨[], hf⟩
  | effect hm _ ih =>
    obtain ⟨earlier, hk⟩ := ih hf hok
    exact ⟨earlier, .effect hm hk⟩
  | @call _ _ _ _ _ v _ hc _ _ ih =>
    obtain ⟨earlier, hk⟩ := ih hf hok
    exact ⟨v :: earlier, .after hc hk⟩
  | @nested _ _ _ _ _ v _ hp _ _ ih =>
    obtain ⟨earlier, hk⟩ := ih hf hok
    exact ⟨v :: earlier, .afterNested hp hk⟩
  | effect_error | call_error | nested_error => cases hok

theorem read {f : State → Program α} (h : Begins limits c u (f s) s stack returned) :
    Begins limits c u (state >>= f) s stack returned := .effect rfl h

/-- After a check in front of a program. -/
theorem check {q : Prop} [Decidable q] (hq : ¬ q) (e : Error) {k : Unit → Program α}
    (h : Begins limits c u (k ()) s stack returned) :
    Begins limits c u (if q then fail e >>= k else k ()) s stack returned := by
  rwa [if_neg hq]

end Begins

/-- What the evaluation of the `fn` form of a macro definition returns. -/
def Call.Returns (c : Call) (v : Value) : Prop :=
  ∀ params body env, c = .evaluate (.list (.text SpecialForm.fnName :: .list params :: body)) env →
    v.IsTransformer

end Recursion

open Recursion (Program Call Begins Ends ofRun ofExcept fail state evaluateLater)

namespace Simulation

/-! ### Programs that uphold a simulation -/

variable {W : Type} [Preorder W] (S : Simulation W)

/-- What a call is given is related to itself. -/
def Knows (w : W) : Call → Prop
  | .evaluate v env => S.Val w v v ∧ S.Env w env env
  | .expandOn _ form => S.Val w form form

/-- Each step of the program, from a state that is related to itself, leads to such a state, also
when it fails. Calls are given what is known, and what they return may be taken as known. -/
def Upholds : {α : Type} → W → (W → α → α → Prop) → Program α → Prop
  | _, w, R, .pure a => R w a a
  | _, w, R, .effect m k => ∀ s, S.St w s s →
    (∀ b t, m s = .ok b t → ∃ u, w ≤ u ∧ S.St u t t ∧ Upholds u R (k b)) ∧
    ∀ e t, m s = .error e t → ∃ u, w ≤ u ∧ S.St u t t
  | _, w, R, .call c k => S.Knows w c ∧
    ∀ u v, w ≤ u → S.Val u v v → c.Returns v → Upholds u R (k v)
  | _, w, R, .nested p k => Upholds w S.Val p ∧ ∀ u v, w ≤ u → S.Val u v v → Upholds u R (k v)

variable {S} {w : W} {α β : Type} {R : W → α → α → Prop} {Q : W → β → β → Prop} {env : Environment}
  {limits : Limits}

theorem Knows.mono {u : W} {c : Call} (hle : w ≤ u) (h : S.Knows w c) : S.Knows u c := by
  cases c with
  | evaluate v env => exact ⟨S.val_mono hle h.1, S.env_mono hle h.2⟩
  | expandOn steps form => exact S.val_mono hle h

theorem upholds_pure {a : α} (h : R w a a) : S.Upholds w R (pure a) := h

theorem upholds_bind {p : Program α} {f : α → Program β} (hp : S.Upholds w R p)
    (hf : ∀ {u a}, w ≤ u → R u a a → S.Upholds u Q (f a)) : S.Upholds w Q (p >>= f) := by
  induction p generalizing w with
  | pure a => exact hf le_rfl hp
  | effect m k ih =>
    intro s hst
    obtain ⟨hok, herror⟩ := hp s hst
    refine ⟨fun b t hm => ?_, herror⟩
    obtain ⟨u, hle, hst', hk⟩ := hok b t hm
    exact ⟨u, hle, hst', ih b hk fun hle' => hf (le_trans hle hle')⟩
  | call c k ih =>
    refine ⟨hp.1, fun u v hle hv hreturns => ?_⟩
    exact ih v (hp.2 u v hle hv hreturns) fun hle' => hf (le_trans hle hle')
  | nested q k _ ih =>
    refine ⟨hp.1, fun u v hle hv => ?_⟩
    exact ih v (hp.2 u v hle hv) fun hle' => hf (le_trans hle hle')

theorem upholds_ofRun {m : Run α} (h : S.Runs w R m m) : S.Upholds w R (ofRun m) := by
  intro s hst
  have hrun := h hst
  constructor
  · intro a t hm
    rw [hm] at hrun
    cases hrun with
    | ok hle ha hst' => exact ⟨_, hle, hst', ha⟩
  · intro e t hm
    rw [hm] at hrun
    cases hrun with
    | error hle _ hst' => exact ⟨_, hle, hst'⟩

theorem upholds_fail (e : Error) : S.Upholds w R (fail e) := by
  intro s hst
  refine ⟨fun b t h => ?_, fun e t h => ?_⟩
  · cases h
  · cases h
    exact ⟨w, le_rfl, hst⟩

theorem upholds_ofExcept {x : Except Error α} (h : ∀ a, x = .ok a → R w a a) :
    S.Upholds w R (ofExcept x) := by
  intro s hst
  cases x with
  | ok a =>
    refine ⟨fun b t hm => ?_, fun e t hm => ?_⟩
    · cases hm
      exact ⟨w, le_rfl, hst, h a rfl⟩
    · cases hm
  | error e =>
    refine ⟨fun b t hm => ?_, fun e t hm => ?_⟩
    · cases hm
    · cases hm
      exact ⟨w, le_rfl, hst⟩

theorem upholds_refusal (x : Except Error Text) (refusal : Text → Error) :
    S.Upholds w R (ofExcept x >>= fun shown => fail (refusal shown)) :=
  upholds_bind (R := fun _ _ _ => True) (upholds_ofExcept fun _ _ => trivial) fun _ _ =>
    upholds_fail _

theorem upholds_read {f : State → Program α} (h : ∀ s, S.St w s s → S.Upholds w R (f s)) :
    S.Upholds w R (state >>= f) := by
  intro s hst
  refine ⟨fun b t hm => ?_, fun e t hm => ?_⟩
  · cases hm
    exact ⟨w, le_rfl, hst, h s hst⟩
  · cases hm

/-- A check in front of a program. -/
theorem upholds_check (c : Prop) [Decidable c] (e : Error) {k : Unit → Program α}
    (h : S.Upholds w R (k ())) : S.Upholds w R (if c then fail e >>= k else k ()) := by
  split
  · exact upholds_bind (R := fun _ _ _ => False) (upholds_fail e) fun _ hfails => hfails.elim
  · exact h

theorem upholds_evaluateLater {v : Value} (hv : S.Val w v v) (henv : S.Env w env env) :
    S.Upholds w S.Val (evaluateLater v env) :=
  ⟨⟨hv, henv⟩, fun _ _ _ hvalue _ => hvalue⟩

/-! ### Parts of forms -/

theorem upholds_evalSequence {forms : List Value} (henv : S.Env w env env)
    (h : Forall₂ (S.Val w) forms forms) :
    S.Upholds w S.Val (Recursion.evalSequence env forms) := by
  induction forms generalizing w with
  | nil => exact upholds_pure (S.val_null w)
  | cons form rest ih =>
    obtain ⟨hform, hrest⟩ := List.forall₂_cons.1 h
    cases rest with
    | nil => exact upholds_evaluateLater hform henv
    | cons =>
      exact upholds_bind (upholds_evaluateLater hform henv) fun hle _ =>
        ih (S.env_mono hle henv) (vals_mono hle hrest)

theorem upholds_evalArguments {forms : List Value} (henv : S.Env w env env)
    (h : Forall₂ (S.Val w) forms forms) :
    S.Upholds w (fun u => Forall₂ (S.Val u)) (Recursion.evalArguments env forms) := by
  induction forms generalizing w with
  | nil => exact upholds_pure .nil
  | cons form rest ih =>
    obtain ⟨hform, hrest⟩ := List.forall₂_cons.1 h
    refine upholds_bind (upholds_evaluateLater hform henv) fun hle hvalue => ?_
    refine upholds_bind (ih (S.env_mono hle henv) (vals_mono hle hrest)) fun hle' hvalues => ?_
    exact upholds_pure (.cons (S.val_mono hle' hvalue) hvalues)

theorem upholds_evalDefine {parts : List Value} (henv : S.Env w env env)
    (h : Forall₂ (S.Val w) parts parts) :
    S.Upholds w S.Val (Recursion.evalDefine env parts) := by
  fun_cases Recursion.evalDefine env parts with
  | case1 name form =>
    obtain ⟨-, hrest⟩ := List.forall₂_cons.1 h
    obtain ⟨hform, -⟩ := List.forall₂_cons.1 hrest
    refine upholds_read fun s _ => upholds_check _ _ ?_
    refine upholds_bind (upholds_evaluateLater hform henv) fun _ hvalue => ?_
    exact upholds_bind (upholds_ofRun (runs_defineGlobal name hvalue)) fun hle _ =>
      upholds_pure (S.val_mono hle hvalue)
  | case2 => exact upholds_refusal _ _
  | case3 => exact upholds_fail _

theorem upholds_evalConditional {parts : List Value} (henv : S.Env w env env)
    (h : Forall₂ (S.Val w) parts parts) :
    S.Upholds w S.Val (Recursion.evalConditional env parts) := by
  fun_cases Recursion.evalConditional env parts with
  | case1 test consequent =>
    obtain ⟨htest, hrest⟩ := List.forall₂_cons.1 h
    obtain ⟨hthen, -⟩ := List.forall₂_cons.1 hrest
    refine upholds_bind (upholds_evaluateLater htest henv) fun hle _ => ?_
    split
    · exact upholds_evaluateLater (S.val_mono hle hthen) (S.env_mono hle henv)
    · exact upholds_pure (S.val_null _)
  | case2 test consequent alternative =>
    obtain ⟨htest, hrest⟩ := List.forall₂_cons.1 h
    obtain ⟨hthen, hmore⟩ := List.forall₂_cons.1 hrest
    obtain ⟨helse, -⟩ := List.forall₂_cons.1 hmore
    refine upholds_bind (upholds_evaluateLater htest henv) fun hle _ => ?_
    split
    · exact upholds_evaluateLater (S.val_mono hle hthen) (S.env_mono hle henv)
    · exact upholds_evaluateLater (S.val_mono hle helse) (S.env_mono hle henv)
  | case3 => exact upholds_fail _

theorem upholds_evalMacroDefinition {parts : List Value} (henv : S.Env w env env)
    (h : Forall₂ (S.Val w) parts parts) :
    S.Upholds w S.Val (Recursion.evalMacroDefinition env parts) := by
  fun_cases Recursion.evalMacroDefinition env parts with
  | case1 name params body =>
    obtain ⟨-, hfunction⟩ := List.forall₂_cons.1 h
    have hform := S.val_list (.cons (S.val_text w SpecialForm.fnName) hfunction)
    refine upholds_read fun s _ => upholds_check _ _ ⟨⟨hform, henv⟩, fun u v _ hv hreturns => ?_⟩
    change S.Upholds u S.Val (ofRun (Run.defineMacro name v) >>= fun _ => pure (.text name))
    have hdefine := upholds_ofRun (runs_defineMacro name hv (hreturns params body env rfl))
    exact upholds_bind hdefine fun _ _ => upholds_pure (S.val_text _ name)
  | case2 => exact upholds_fail _
  | case3 => exact upholds_refusal _ _
  | case4 => exact upholds_fail _

theorem upholds_evalSpecialForm (form : SpecialForm) {parts : List Value} (henv : S.Env w env env)
    (h : Forall₂ (S.Val w) parts parts) :
    S.Upholds w S.Val (Recursion.evalSpecialForm form env parts) := by
  -- Two special forms evaluate nothing, so that an evaluation that always fails may stand here.
  let ev : Eval := fun _ _ => throw (.argumentCount .quote)
  have hev : S.Evals ev ev := fun _ _ _ _ _ _ _ => runs_foreseen rfl
  have hmakes : MakesTransformers ev := fun _ _ _ _ _ _ hok => by cases hok
  cases form with
  | quote => exact upholds_ofRun (runs_specialForm hev hmakes .quote henv h)
  | function => exact upholds_ofRun (runs_specialForm hev hmakes .function henv h)
  | define => exact upholds_evalDefine henv h
  | conditional => exact upholds_evalConditional henv h
  | macroDefinition => exact upholds_evalMacroDefinition henv h
  | sequence => exact upholds_evalSequence henv h

/-! ### Calls of functions -/

theorem upholds_applyClosure {form : List Value} {scope : Environment} {args : List Value}
    (hform : Forall₂ (S.Val w) form form) (hscope : S.Env w scope scope)
    (hargs : Forall₂ (S.Val w) args args) :
    S.Upholds w S.Val (Recursion.applyClosure form scope args) := by
  fun_cases Recursion.applyClosure form scope args with
  | case1 head params body =>
    obtain ⟨-, hrest⟩ := List.forall₂_cons.1 hform
    obtain ⟨hparams, hbody⟩ := List.forall₂_cons.1 hrest
    cases S.val_similar hparams with
    | list hlist =>
      have hbind := runs_ofExcept (R := S.Frames) (results_bindPattern hlist hargs)
      refine upholds_bind (upholds_ofRun hbind) fun hle hframe => ?_
      exact upholds_evalSequence (S.env_extend (S.env_mono hle hscope) hframe)
        (vals_mono hle hbody)
  | case2 => exact upholds_refusal _ _
  | case3 => exact upholds_fail _

theorem upholds_apply {f : Value} {args : List Value} (hf : S.Val w f f)
    (hargs : Forall₂ (S.Val w) args args) : S.Upholds w S.Val (Recursion.apply f args) := by
  cases S.val_similar hf with
  | map hentries => exact upholds_ofRun (runs_ofExcept (results_applyMap hentries hargs))
  | closure hform hscope => exact upholds_applyClosure hform hscope hargs
  | builtin name =>
    rw [Recursion.apply]
    cases Primitive.ofName? name with
    | some p => exact upholds_ofRun (runs_primitive p hargs)
    | none => exact upholds_fail _
  | null | bool | int | float | text | list => exact upholds_refusal _ _

theorem upholds_evalCall {head : Value} {args : List Value} (hhead : S.Val w head head)
    (hargs : Forall₂ (S.Val w) args args) (henv : S.Env w env env) :
    S.Upholds w S.Val (Recursion.evalCall head args env) := by
  refine upholds_bind (upholds_evaluateLater hhead henv) fun hle hf => ?_
  refine upholds_bind (upholds_evalArguments (S.env_mono hle henv) (vals_mono hle hargs)) ?_
  exact fun hle' hvalues => upholds_apply (S.val_mono hle' hf) hvalues

/-! ### Expansion -/

/-- A macro is expanded by a transformer that is known, or by that of parallel bindings. -/
theorem upholds_expandOnce {name : Text} {args : List Value} (hargs : Forall₂ (S.Val w) args args) :
    S.Upholds w S.Val (Recursion.expandOnce name args) := by
  refine upholds_read fun s hst => ?_
  have hmacro := S.st_macros name hst
  generalize s.macros.find? name = found at hmacro
  cases hmacro with
  | none => exact upholds_fail _
  | some hf =>
    obtain hf | ⟨rfl, -⟩ := hf
    · exact upholds_apply hf hargs
    · exact upholds_ofRun (runs_primitive .parallelBinding hargs)

theorem upholds_expandOn {steps : Int} {form : Value} (hform : S.Val w form form) :
    S.Upholds w S.Val (Recursion.expandOn limits steps form) := by
  refine upholds_read fun s hst => ?_
  have hcall := macroCall?_rel hst hform
  generalize macroCall? s.macros form = call at hcall
  cases hcall with
  | none => exact upholds_pure hform
  | @some c _ hc =>
    refine upholds_check _ _ (upholds_bind (upholds_expandOnce hc.2.2) fun _ hnext => ?_)
    exact ⟨hnext, fun _ _ _ hvalue _ => hvalue⟩

theorem upholds_expand {name : Text} {args : List Value} (hargs : Forall₂ (S.Val w) args args) :
    S.Upholds w S.Val (Recursion.expand limits name args) :=
  upholds_bind (upholds_expandOnce hargs) fun _ hform => upholds_expandOn hform

/-! ### Forms and values -/

theorem upholds_evalForm {head : Value} {args : List Value} (hhead : S.Val w head head)
    (hargs : Forall₂ (S.Val w) args args) (henv : S.Env w env env) :
    S.Upholds w S.Val (Recursion.evalForm limits head args env) := by
  fun_cases Recursion.evalForm limits head args env with
  | case1 name form => exact upholds_evalSpecialForm form henv hargs
  | case2 name =>
    refine upholds_read fun s hst => ?_
    split
    · exact upholds_bind (upholds_expand hargs) fun hle hform =>
        upholds_evaluateLater hform (S.env_mono hle henv)
    · exact upholds_evalCall hhead hargs henv
  | case3 => exact upholds_evalCall hhead hargs henv

/-- Values under the same keys as in the entries. -/
theorem upholds_evalEntries {entries : List (Text × Value)} (henv : S.Env w env env)
    (h : Forall₂ (SameName (S.Val w)) entries entries) :
    S.Upholds w (fun u es fs => es.map Prod.fst = entries.map Prod.fst ∧
      Forall₂ (SameName (S.Val u)) es fs) (Recursion.evalEntries entries env) := by
  induction entries generalizing w with
  | nil => exact upholds_pure ⟨rfl, .nil⟩
  | cons e rest ih =>
    obtain ⟨key, v⟩ := e
    obtain ⟨hv, hrest⟩ := List.forall₂_cons.1 h
    refine upholds_bind (upholds_evaluateLater hv.2 henv) fun hle hvalue => ?_
    refine upholds_bind (ih (S.env_mono hle henv) (entries_mono hle hrest)) fun hle' hentries => ?_
    obtain ⟨hkeys, hentries⟩ := hentries
    refine upholds_pure ⟨?_, .cons ⟨rfl, S.val_mono hle' hvalue⟩ hentries⟩
    rw [List.map_cons, List.map_cons, hkeys]

theorem upholds_evaluate {v : Value} (hv : S.Val w v v) (henv : S.Env w env env) :
    S.Upholds w S.Val (Recursion.evaluate limits v env) := by
  fun_cases Recursion.evaluate limits v env with
  | case1 name => exact upholds_ofRun (runs_lookup henv name)
  | case2 head args =>
    cases S.val_similar hv with
    | list hitems =>
      obtain ⟨hhead, hargs⟩ := List.forall₂_cons.1 hitems
      refine upholds_read fun s _ => upholds_check _ _ ⟨?_, fun _ _ _ hvalue => hvalue⟩
      exact upholds_evalForm hhead hargs henv
  | case3 entries =>
    cases S.val_similar hv with
    | map hentries =>
      refine upholds_bind (upholds_evalEntries henv hentries) fun _ hes => ?_
      exact upholds_pure (S.val_sameKeys hv hes.1 hes.2)
  | case4 => exact upholds_pure hv

theorem upholds_body {c : Call} (h : S.Knows w c) :
    S.Upholds w S.Val (Recursion.body limits c) := by
  cases c with
  | evaluate v env => exact upholds_evaluate h.1 h.2
  | expandOn steps form => exact upholds_expandOn h

/-! ### Runs -/

theorem returns_of_ends (S : Simulation W) {c : Call} {s t : State} {v : Value}
    (h : Ends limits (Recursion.body limits c) s (.ok v t)) : c.Returns v := by
  rintro params body env rfl
  have hrun := Recursion.follows_evaluate limits s.depth
    (.list (.text SpecialForm.fnName :: .list params :: body)) env
  exact (S.engines limits).transformers ((hrun.ends_iff _).1 h).symm

/-- A run that ends leaves a state that is known, and what it returns is known. -/
theorem Upholds.ends {p : Program α} {s : State} {r : Outcome Error α} (h : S.Upholds w R p)
    (hst : S.St w s s) (hr : Ends limits p s r) :
    ∃ u, w ≤ u ∧ S.St u (Outcome.state r) (Outcome.state r) ∧ ∀ a t, r = .ok a t → R u a a := by
  induction hr generalizing w with
  | pure a s =>
    refine ⟨w, le_rfl, hst, fun b t hb => ?_⟩
    cases hb
    exact h
  | effect hm _ ih =>
    obtain ⟨u, hle, hst', hk⟩ := (h _ hst).1 _ _ hm
    obtain ⟨x, hle', hx⟩ := ih hk hst'
    exact ⟨x, le_trans hle hle', hx⟩
  | effect_error hm =>
    obtain ⟨u, hle, hst'⟩ := (h _ hst).2 _ _ hm
    exact ⟨u, hle, hst', fun _ _ hok => by cases hok⟩
  | call hc _ ihc ihk =>
    obtain ⟨u, hle, hst', hv⟩ := ihc (upholds_body h.1) hst
    have hk := h.2 u _ hle (hv _ _ rfl) (returns_of_ends S hc)
    obtain ⟨x, hle', hx⟩ := ihk hk hst'
    exact ⟨x, le_trans hle hle', hx⟩
  | call_error _ ih =>
    obtain ⟨u, hle, hst', -⟩ := ih (upholds_body h.1) hst
    exact ⟨u, hle, hst', fun _ _ hok => by cases hok⟩
  | nested _ _ ihp ihk =>
    obtain ⟨u, hle, hst', hv⟩ := ihp h.1 (S.st_atDepth _ hst)
    obtain ⟨x, hle', hx⟩ := ihk (h.2 u _ hle (hv _ _ rfl)) (S.st_atDepth _ hst')
    exact ⟨x, le_trans hle hle', hx⟩
  | nested_error _ ih =>
    obtain ⟨u, hle, hst', -⟩ := ih h.1 (S.st_atDepth _ hst)
    exact ⟨u, hle, S.st_atDepth _ hst', fun _ _ hok => by cases hok⟩

/-- What is known where a call begins: the state, the call, the calls around it, and what has been
returned to these. -/
structure Known (S : Simulation W) (w : W) (c : Call) (u : State) (stack : List Call)
    (returned : List Value) : Prop where
  state : S.St w u u
  call : S.Knows w c
  stack : ∀ d ∈ stack, S.Knows w d
  returned : ∀ v ∈ returned, S.Val w v v

theorem Upholds.begins {p : Program α} {c : Call} {s u : State} {stack : List Call}
    {returned : List Value} (h : S.Upholds w R p) (hst : S.St w s s)
    (hc : Begins limits c u p s stack returned) :
    ∃ x, w ≤ x ∧ S.Known x c u stack returned := by
  induction hc generalizing w with
  | here k => exact ⟨w, le_rfl, hst, h.1, by simp, by simp⟩
  | effect hm _ ih =>
    obtain ⟨x, hle, hst', hk⟩ := (h _ hst).1 _ _ hm
    obtain ⟨y, hle', hy⟩ := ih hk hst'
    exact ⟨y, le_trans hle hle', hy⟩
  | inside _ ih =>
    obtain ⟨x, hle, hx⟩ := ih (upholds_body h.1) hst
    have hstack := List.forall_mem_cons.2 ⟨h.1.mono hle, hx.stack⟩
    exact ⟨x, hle, { hx with stack := hstack }⟩
  | after hd _ ih =>
    obtain ⟨x, hle, hst', hv⟩ := (upholds_body h.1).ends hst hd
    have hv := hv _ _ rfl
    obtain ⟨y, hle', hy⟩ := ih (h.2 x _ hle hv (returns_of_ends S hd)) hst'
    have hreturned := List.forall_mem_cons (p := fun v => S.Val y v v).2
      ⟨S.val_mono hle' hv, hy.returned⟩
    exact ⟨y, le_trans hle hle', { hy with returned := hreturned }⟩
  | nested _ ih =>
    exact ih h.1 (S.st_atDepth _ hst)
  | afterNested hp _ ih =>
    obtain ⟨x, hle, hst', hv⟩ := h.1.ends (S.st_atDepth _ hst) hp
    have hv := hv _ _ rfl
    obtain ⟨y, hle', hy⟩ := ih (h.2 x _ hle hv) (S.st_atDepth _ hst')
    have hreturned := List.forall_mem_cons (p := fun v => S.Val y v v).2
      ⟨S.val_mono hle' hv, hy.returned⟩
    exact ⟨y, le_trans hle hle', { hy with returned := hreturned }⟩

end Simulation

end JsonLisp
