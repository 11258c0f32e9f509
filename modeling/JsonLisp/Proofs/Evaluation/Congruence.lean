import JsonLisp.Evaluation.Basic

/-!
# Relations that evaluation respects

Evaluation is composed of a few effects. A relation between computations that holds across each
effect and is kept by sequencing therefore holds between two evaluations as soon as it holds
between the ways in which they evaluate parts. A property of one computation is a relation that
leaves the other one out.

## Main definitions

* `Outcome.state`: the state that a computation leaves, also when it fails.
* `Congruence`: a relation of this kind. Each `Congruence.rel_...` passes it through one function
  of the evaluator.
-/

namespace JsonLisp

/-- A value or an error, with the state that is left. -/
abbrev Outcome (ε α : Type) := EStateM.Result ε State α

namespace Outcome

variable {ε α : Type}

def state : Outcome ε α → State
  | .ok _ s => s
  | .error _ s => s

def value? : Outcome ε α → Option α
  | .ok a _ => some a
  | .error _ _ => none

theorem eq_ok_of_value? {r : Outcome ε α} {a : α} (h : value? r = some a) :
    r = .ok a (state r) := by
  cases r with
  | ok b s =>
    cases h
    rfl
  | error e s => cases h

@[simp] theorem state_ok (a : α) (s : State) : state (.ok a s : Outcome ε α) = s := rfl
@[simp] theorem state_error (e : ε) (s : State) : state (.error e s : Outcome ε α) = s := rfl

/-- The same value or error in another state. -/
def mapState (g : State → State) : Outcome ε α → Outcome ε α
  | .ok a s => .ok a (g s)
  | .error e s => .error e (g s)

@[simp] theorem state_mapState (g : State → State) (r : Outcome ε α) :
    state (mapState g r) = g (state r) := by
  cases r <;> rfl

theorem mapState_eq_ok {g : State → State} {r : Outcome ε α} {a : α} {t : State}
    (h : mapState g r = .ok a t) : ∃ u, r = .ok a u ∧ t = g u := by
  cases r with
  | ok b u =>
    cases h
    exact ⟨u, rfl, rfl⟩
  | error e u => cases h

end Outcome

/-- The same state with another number of forms under evaluation. -/
def State.atDepth (s : State) (d : Nat) : State := { s with depth := d }

@[simp] theorem State.depth_atDepth (s : State) (d : Nat) : (s.atDepth d).depth = d := rfl

section Sequencing

variable {ε α β : Type} {m : EStateM ε State α} {f : α → EStateM ε State β} {s t : State}

theorem bind_of_ok {a : α} (h : m s = .ok a t) : (m >>= f) s = f a t := by
  change EStateM.bind m f s = f a t
  simp [EStateM.bind, h]

theorem bind_of_error {e : ε} (h : m s = .error e t) : (m >>= f) s = .error e t := by
  change EStateM.bind m f s = .error e t
  simp [EStateM.bind, h]

/-- Both parts of a computation that succeeds have succeeded. -/
theorem bind_eq_ok {b : β} (h : (m >>= f) s = .ok b t) :
    ∃ a u, m s = .ok a u ∧ f a u = .ok b t := by
  cases hm : m s with
  | ok a u =>
    rw [bind_of_ok hm] at h
    exact ⟨a, u, rfl, h⟩
  | error e u =>
    rw [bind_of_error hm] at h
    cases h

/-- What follows a computation depends on its outcome alone. -/
theorem bind_congr_left {m' : EStateM ε State α} (h : m s = m' s) :
    (m >>= f) s = (m' >>= f) s := by
  change EStateM.bind m f s = EStateM.bind m' f s
  simp [EStateM.bind, h]

/-- What holds of the state after the first of two computations, and is kept by the second if there
is one, holds of the state after both. -/
theorem state_bind {p : State → Prop} (hm : p (Outcome.state (m s)))
    (hf : ∀ a t, m s = .ok a t → p t → p (Outcome.state (f a t))) :
    p (Outcome.state ((m >>= f) s)) := by
  cases h : m s with
  | ok a t =>
    rw [h] at hm
    rw [bind_of_ok h]
    exact hf a t h hm
  | error e t =>
    rw [h] at hm
    rw [bind_of_error h]
    exact hm

/-- A change of the state that commutes with two computations commutes with their sequence. -/
theorem bind_mapState {g : State → State} {m' : EStateM ε State α} {f' : α → EStateM ε State β}
    (hm : m (g s) = Outcome.mapState g (m' s))
    (hf : ∀ a t, f a (g t) = Outcome.mapState g (f' a t)) :
    (m >>= f) (g s) = Outcome.mapState g ((m' >>= f') s) := by
  cases h : m' s with
  | ok a t =>
    rw [h] at hm
    rw [bind_of_ok h, bind_of_ok hm]
    exact hf a t
  | error e t =>
    rw [h] at hm
    rw [bind_of_error h, bind_of_error hm]
    rfl

theorem read_apply (f : State → EStateM ε State α) (s : State) : (get >>= f) s = f s s := rfl

end Sequencing

/-! ### Effects -/

theorem print_eq (document : Json) (s : State) :
    Run.print document s =
      match document.write with
      | .ok _ => .ok () { s with printed := document :: s.printed }
      | .error fault => .error (.noJsonForm fault) s := by
  unfold Run.print
  cases document.write <;> rfl

theorem defineGlobal_eq (name : Text) (value : Value) (s : State) :
    Run.defineGlobal name value s =
      if s.globals.contains name then .error (.alreadyGlobal name) s
      else .ok () { s with
        globals := s.globals.add name value
        journal := .definedGlobal name :: s.journal } := by
  change (Run.ofExcept (s.globals.defineGlobal name value) >>= _) s = _
  unfold Table.defineGlobal
  split <;> rfl

theorem defineMacro_eq (name : Text) (transformer : Value) (s : State) :
    Run.defineMacro name transformer s =
      if s.macros.contains name then .error (.alreadyMacro name) s
      else .ok () { s with
        macros := s.macros.add name transformer
        journal := .definedMacro name :: s.journal } := by
  change (Run.ofExcept (s.macros.defineMacro name transformer) >>= _) s = _
  unfold Table.defineMacro
  split <;> rfl

/-- One form more under evaluation, and at the end one less. -/
theorem nested_eq_mapState {α : Type} (m : Run α) (s : State) :
    Run.nested m s = Outcome.mapState (fun t => t.atDepth (t.depth - 1))
      (m (s.atDepth (s.depth + 1))) := by
  unfold Run.nested State.atDepth
  cases m { s with depth := s.depth + 1 } <;> rfl

/-! ### Forms with a name at their head

The evaluator with one part left open: what to do with a form whose head is a name, but not that
of a special form.
-/

def formBy (onName : Text → List Value → Environment → Run Value) (engine : Engine)
    (head : Value) (args : List Value) (env : Environment) : Run Value :=
  match head with
  | .text name =>
    match SpecialForm.ofName? name with
    | some form => form.run engine.eval env args
    | none => onName name args env
  | other => evalCall engine other args env

def levelsBy (onName : Engine → Text → List Value → Environment → Run Value)
    (primitive : Primitive → List Value → Run Value) (limit : Int) : Nat → Eval
  | 0 => evalWith fun _ _ _ => throw (.nestedTooDeep limit)
  | levels + 1 =>
    let engine : Engine := ⟨levelsBy onName primitive limit levels, primitive⟩
    evalWith fun head args env => Run.nested (formBy (onName engine) engine head args env)

theorem evalForm_eq_formBy (limits : Limits) (engine : Engine) :
    evalForm limits engine = formBy (evalNamed limits engine) engine := by
  funext head args env
  cases head <;> rfl

theorem evalLevels_eq_levelsBy (primitive : Primitive → List Value → Run Value) (limits : Limits)
    (levels : Nat) :
    evalLevels primitive limits levels =
      levelsBy (evalNamed limits) primitive limits.evaluation levels := by
  induction levels with
  | zero => rfl
  | succ levels ih => rw [evalLevels, levelsBy, ih, evalForm_eq_formBy]

/-! ### Congruences -/

/-- The value of a global name. -/
def globalValue (name : Text) : Run Value := do Run.ofExcept ((← get).globals.lookup name)

/-- The definition of a global name by the value of a computation. A name that is taken is refused
before that. -/
def defineBy (name : Text) (m : Run Value) : Run Value := do
  if (← get).globals.contains name then throw (.alreadyGlobal name)
  let value ← m
  Run.defineGlobal name value
  return value

theorem defineBy_eq (name : Text) (m : Run Value) (s : State) :
    defineBy name m s =
      if s.globals.contains name then .error (.alreadyGlobal name) s
      else (m >>= fun value => Run.defineGlobal name value >>= fun _ => pure value) s := by
  change (if s.globals.contains name then _ else _ : Run Value) s = _
  split <;> rfl

/-- Nothing but the table of the macros is read of the state. -/
def ReadsMacros {α : Type} (f : State → Run α) : Prop :=
  ∀ s t : State, s.macros = t.macros → f s = f t

/-- A relation between computations that the effects of evaluation and sequencing respect. The
global table is read for the value of a name and at a definition, and the table of the macros
anywhere. Printing is left to the primitives. -/
structure Congruence where
  Rel : {α : Type} → Run α → Run α → Prop
  rel_pure : ∀ {α : Type} (a : α), Rel (pure a) (pure a)
  rel_throw : ∀ {α : Type} (e : Error), Rel (throw e : Run α) (throw e)
  rel_bind : ∀ {α β : Type} {m m' : Run α} {f f' : α → Run β}, Rel m m' →
    (∀ a, Rel (f a) (f' a)) → Rel (m >>= f) (m' >>= f')
  rel_globalValue : ∀ name, Rel (globalValue name) (globalValue name)
  rel_defineBy : ∀ name {m m' : Run Value}, Rel m m' → Rel (defineBy name m) (defineBy name m')
  rel_readMacros : ∀ {α : Type} {f f' : State → Run α}, (∀ s, Rel (f s) (f' s)) →
    ReadsMacros f → ReadsMacros f' → Rel (get >>= f) (get >>= f')
  rel_newClosure : ∀ form scope, Rel (Run.newClosure form scope) (Run.newClosure form scope)
  rel_defineMacro : ∀ name value, Rel (Run.defineMacro name value) (Run.defineMacro name value)

/-- A congruence of computations in one state. What is read of the state may be anything but the
number of forms under evaluation. -/
structure StateCongruence extends Congruence where
  rel_print : ∀ document, Rel (Run.print document) (Run.print document)
  rel_read : ∀ {α : Type} {f f' : State → Run α}, (∀ s, Rel (f s) (f' s)) →
    (∀ s d, f (s.atDepth d) = f s) → (∀ s d, f' (s.atDepth d) = f' s) →
    Rel (get >>= f) (get >>= f')
  rel_defineGlobal : ∀ name value,
    Rel (Run.defineGlobal name value) (Run.defineGlobal name value)
  rel_globalValue := fun name => by
    refine rel_read (fun s => ?_) (fun _ _ => rfl) (fun _ _ => rfl)
    cases s.globals.lookup name with
    | ok value => exact rel_pure value
    | error e => exact rel_throw e
  rel_defineBy := fun name {_ _} hm => by
    have hdefine := rel_bind hm fun value =>
      rel_bind (rel_defineGlobal name value) fun _ => rel_pure value
    refine rel_read (fun s => ?_) (fun _ _ => rfl) (fun _ _ => rfl)
    split
    · exact rel_bind (rel_throw _) fun _ => hdefine
    · exact hdefine
  rel_readMacros := fun hf hread hread' =>
    rel_read hf (fun _ _ => hread _ _ rfl) (fun _ _ => hread' _ _ rfl)

namespace Congruence

variable (C : Congruence) {α : Type} {ev ev' : Eval} {e e' : Engine}

theorem rel_ofExcept (x : Except Error α) : C.Rel (Run.ofExcept x) (Run.ofExcept x) := by
  cases x with
  | ok a => exact C.rel_pure a
  | error e => exact C.rel_throw e

/-- An error that shows a value. -/
theorem rel_refusal (x : Except Error Text) (refusal : Text → Error) :
    C.Rel (do throw (refusal (← Run.ofExcept x)) : Run α)
      (do throw (refusal (← Run.ofExcept x))) :=
  C.rel_bind (C.rel_ofExcept x) fun _ => C.rel_throw _

/-- A check in front of a computation. -/
theorem rel_check (p : Prop) [Decidable p] (e : Error) {k k' : Unit → Run α}
    (h : C.Rel (k ()) (k' ())) :
    C.Rel (if p then throw e >>= k else k ()) (if p then throw e >>= k' else k' ()) := by
  split
  · exact C.rel_bind (C.rel_throw e) fun _ => h
  · exact h

theorem rel_lookup (name : Text) (env : Environment) :
    C.Rel (lookup name env) (lookup name env) := by
  unfold lookup
  split
  · exact C.rel_pure _
  · exact C.rel_globalValue name

/-! ### Primitives -/

/-- The primitive that prints, where printing one document is respected. -/
theorem rel_runPrint (hprint : ∀ document, C.Rel (Run.print document) (Run.print document))
    (args : List Value) : C.Rel (Primitive.print.run args) (Primitive.print.run args) := by
  have hall : C.Rel (Primitive.printAll args) (Primitive.printAll args) := by
    induction args with
    | nil => exact C.rel_pure ()
    | cons v rest ih => exact C.rel_bind (hprint v.wire) fun _ => ih
  exact C.rel_bind hall fun _ => C.rel_pure _

/-- One primitive looks at the global table as a whole, and one prints. -/
theorem rel_primitive_of_ne {p : Primitive} (hglobals : p ≠ .globals) (hprint : p ≠ .print)
    (args : List Value) : C.Rel (p.run args) (p.run args) := by
  cases p with
  | list => exact C.rel_pure _
  | print => exact absurd rfl hprint
  | globals => exact absurd rfl hglobals
  | arithmetic | comparison | append | conj | cons | parallelBinding =>
    exact C.rel_ofExcept _

/-! ### Parts of forms -/

section Parts

variable (hev : ∀ v env, C.Rel (ev v env) (ev' v env))
include hev

theorem rel_evalSequence (env : Environment) (forms : List Value) :
    C.Rel (evalSequence ev env forms) (evalSequence ev' env forms) := by
  induction forms with
  | nil => exact C.rel_pure _
  | cons form rest ih =>
    cases rest with
    | nil => exact hev form env
    | cons => exact C.rel_bind (hev form env) fun _ => ih

theorem rel_evalArguments (env : Environment) (forms : List Value) :
    C.Rel (evalArguments ev env forms) (evalArguments ev' env forms) := by
  induction forms with
  | nil => exact C.rel_pure _
  | cons form rest ih =>
    exact C.rel_bind (hev form env) fun _ => C.rel_bind ih fun _ => C.rel_pure _

theorem rel_runDefine (env : Environment) (parts : List Value) :
    C.Rel (SpecialForm.runDefine ev env parts) (SpecialForm.runDefine ev' env parts) := by
  unfold SpecialForm.runDefine
  split
  · rename_i name form
    exact C.rel_defineBy name (hev form env)
  · exact C.rel_refusal _ _
  · exact C.rel_throw _

theorem rel_runConditional (env : Environment) (parts : List Value) :
    C.Rel (SpecialForm.runConditional ev env parts)
      (SpecialForm.runConditional ev' env parts) := by
  unfold SpecialForm.runConditional
  split
  · rename_i test consequent
    refine C.rel_bind (hev test env) fun value => ?_
    split
    · exact hev consequent env
    · exact C.rel_pure _
  · rename_i test consequent alternative
    refine C.rel_bind (hev test env) fun value => ?_
    split
    · exact hev consequent env
    · exact hev alternative env
  · exact C.rel_throw _

theorem rel_runMacroDefinition (env : Environment) (parts : List Value) :
    C.Rel (SpecialForm.runMacroDefinition ev env parts)
      (SpecialForm.runMacroDefinition ev' env parts) := by
  unfold SpecialForm.runMacroDefinition
  split
  · rename_i name params body
    refine C.rel_readMacros (fun s => C.rel_check _ _ ?_) (fun _ _ h => by simp only [h])
      (fun _ _ h => by simp only [h])
    exact C.rel_bind (hev _ env) fun transformer =>
      C.rel_bind (C.rel_defineMacro name transformer) fun _ => C.rel_pure _
  · exact C.rel_throw _
  · exact C.rel_refusal _ _
  · exact C.rel_throw _

theorem rel_specialForm (form : SpecialForm) (env : Environment) (parts : List Value) :
    C.Rel (form.run ev env parts) (form.run ev' env parts) := by
  cases form with
  | quote =>
    change C.Rel (SpecialForm.runQuote parts) (SpecialForm.runQuote parts)
    unfold SpecialForm.runQuote
    split
    · exact C.rel_throw _
    · exact C.rel_pure _
    · exact C.rel_pure _
  | function =>
    change C.Rel (SpecialForm.runFunction env parts) (SpecialForm.runFunction env parts)
    unfold SpecialForm.runFunction
    split
    · exact C.rel_throw _
    · exact C.rel_newClosure _ _
  | define => exact C.rel_runDefine hev env parts
  | conditional => exact C.rel_runConditional hev env parts
  | macroDefinition => exact C.rel_runMacroDefinition hev env parts
  | sequence => exact C.rel_evalSequence hev env parts

theorem rel_applyClosure (form : List Value) (scope : Environment) (args : List Value) :
    C.Rel (applyClosure ev form scope args) (applyClosure ev' form scope args) := by
  unfold applyClosure
  split
  · exact C.rel_bind (C.rel_ofExcept _) fun _ => C.rel_evalSequence hev _ _
  · exact C.rel_refusal _ _
  · exact C.rel_throw _

end Parts

/-! ### Calls and forms -/

/-- Related ways to evaluate parts, and related primitives. -/
structure EngineRel (e e' : Engine) : Prop where
  eval : ∀ v env, C.Rel (e.eval v env) (e'.eval v env)
  primitive : ∀ p args, C.Rel (e.primitive p args) (e'.primitive p args)

section Calls

variable {C} (h : C.EngineRel e e')
include h

theorem rel_applyValue (f : Value) (args : List Value) :
    C.Rel (applyValue e f args) (applyValue e' f args) := by
  unfold applyValue
  split
  · exact C.rel_ofExcept _
  · exact C.rel_applyClosure h.eval _ _ _
  · unfold applyBuiltin
    split
    · exact h.primitive _ _
    · exact C.rel_throw _
  · exact C.rel_refusal _ _

theorem rel_evalCall (head : Value) (args : List Value) (env : Environment) :
    C.Rel (evalCall e head args env) (evalCall e' head args env) :=
  C.rel_bind (h.eval head env) fun f =>
    C.rel_bind (C.rel_evalArguments h.eval env args) fun values => rel_applyValue h f values

theorem rel_expandOnce (name : Text) (args : List Value) :
    C.Rel (expandOnce e name args) (expandOnce e' name args) := by
  refine C.rel_readMacros (fun s => ?_) (fun _ _ h => by simp only [h])
    (fun _ _ h => by simp only [h])
  split
  · exact rel_applyValue h _ args
  · exact C.rel_throw _

theorem rel_expandFurther (limit : Int) (steps : Nat) (form : Value) :
    C.Rel (expandFurther e limit steps form) (expandFurther e' limit steps form) := by
  induction steps generalizing form with
  | zero =>
    refine C.rel_readMacros (fun s => ?_) (fun _ _ h => by simp only [h])
      (fun _ _ h => by simp only [h])
    split
    · exact C.rel_throw _
    · exact C.rel_pure _
  | succ steps ih =>
    refine C.rel_readMacros (fun s => ?_) (fun _ _ h => by simp only [h])
      (fun _ _ h => by simp only [h])
    split
    · rename_i name args _
      exact C.rel_bind (rel_expandOnce h name args) ih
    · exact C.rel_pure _

theorem rel_expandCall (limit : Int) (name : Text) (args : List Value) :
    C.Rel (expandCall e limit name args) (expandCall e' limit name args) :=
  C.rel_bind (rel_expandOnce h name args) fun form => rel_expandFurther h _ _ form

theorem rel_evalNamed (limits : Limits) (name : Text) (args : List Value) (env : Environment) :
    C.Rel (evalNamed limits e name args env) (evalNamed limits e' name args env) := by
  refine C.rel_readMacros (fun s => ?_) (fun _ _ h => by simp only [h])
    (fun _ _ h => by simp only [h])
  split
  · exact C.rel_bind (rel_expandCall h _ name args) fun form => h.eval form env
  · exact rel_evalCall h _ args env

theorem rel_formBy {onName onName' : Text → List Value → Environment → Run Value}
    (hname : ∀ name args env, C.Rel (onName name args env) (onName' name args env))
    (head : Value) (args : List Value) (env : Environment) :
    C.Rel (formBy onName e head args env) (formBy onName' e' head args env) := by
  cases head with
  | text name =>
    simp only [formBy]
    cases SpecialForm.ofName? name with
    | some form => exact C.rel_specialForm h.eval form env args
    | none => exact hname name args env
  | null | bool | int | float | list | map | closure | builtin => exact rel_evalCall h _ args env

end Calls

/-- Related ways to evaluate forms. -/
def FormsRel (onForm onForm' : Value → List Value → Environment → Run Value) : Prop :=
  ∀ head args env, C.Rel (onForm head args env) (onForm' head args env)

section Values

variable {onForm onForm' : Value → List Value → Environment → Run Value}

mutual

theorem rel_evalWith (hform : C.FormsRel onForm onForm') :
    ∀ v env, C.Rel (evalWith onForm v env) (evalWith onForm' v env)
  | .text name, env => by simpa only [evalWith] using C.rel_lookup name env
  | .list (head :: args), env => by simpa only [evalWith] using hform head args env
  | .map entries, env => by
    simp only [evalWith]
    exact C.rel_bind (rel_evalEntries hform entries env) fun _ => C.rel_pure _
  | .null, _ | .bool _, _ | .int _, _ | .float _, _ | .list [], _ | .closure _ _ _, _
  | .builtin _, _ => by simpa only [evalWith] using C.rel_pure _

theorem rel_evalEntries (hform : C.FormsRel onForm onForm') :
    ∀ entries env, C.Rel (evalEntries onForm entries env) (evalEntries onForm' entries env)
  | [], _ => by simpa only [evalEntries] using C.rel_pure _
  | (key, v) :: rest, env => by
    simp only [evalEntries]
    exact C.rel_bind (rel_evalWith hform v env) fun _ =>
      C.rel_bind (rel_evalEntries hform rest env) fun _ => C.rel_pure _

end

end Values

/-- A treatment of names at the head of a form that every congruence passes through. -/
def Parametric (onName : Engine → Text → List Value → Environment → Run Value) : Prop :=
  ∀ {C : Congruence} {e e' : Engine}, C.EngineRel e e' → ∀ name args env,
    C.Rel (onName e name args env) (onName e' name args env)

/-- What holds of every primitive and of counting a form holds of every evaluation. -/
theorem rel_levelsBy {onName : Engine → Text → List Value → Environment → Run Value}
    {primitive primitive' : Primitive → List Value → Run Value} (hname : Parametric onName)
    (hprimitive : ∀ p args, C.Rel (primitive p args) (primitive' p args))
    (hnested : ∀ {m m' : Run Value}, C.Rel m m' → C.Rel (Run.nested m) (Run.nested m'))
    (limit : Int) (levels : Nat) (v : Value) (env : Environment) :
    C.Rel (levelsBy onName primitive limit levels v env)
      (levelsBy onName primitive' limit levels v env) := by
  induction levels generalizing v env with
  | zero => exact C.rel_evalWith (fun _ _ _ => C.rel_throw _) v env
  | succ levels ih =>
    have h : C.EngineRel ⟨levelsBy onName primitive limit levels, primitive⟩
        ⟨levelsBy onName primitive' limit levels, primitive'⟩ := ⟨ih, hprimitive⟩
    exact C.rel_evalWith (fun head args env => hnested (rel_formBy h (hname h) head args env)) v env

theorem parametric_evalNamed (limits : Limits) : Parametric (evalNamed limits) :=
  fun h => rel_evalNamed h limits

theorem rel_evalLevels {primitive primitive' : Primitive → List Value → Run Value}
    (hprimitive : ∀ p args, C.Rel (primitive p args) (primitive' p args))
    (hnested : ∀ {m m' : Run Value}, C.Rel m m' → C.Rel (Run.nested m) (Run.nested m'))
    (limits : Limits) (levels : Nat) (v : Value) (env : Environment) :
    C.Rel (evalLevels primitive limits levels v env)
      (evalLevels primitive' limits levels v env) := by
  rw [evalLevels_eq_levelsBy, evalLevels_eq_levelsBy]
  exact C.rel_levelsBy (parametric_evalNamed limits) hprimitive hnested _ levels v env

end Congruence

theorem StateCongruence.rel_primitive (C : StateCongruence) (p : Primitive) (args : List Value) :
    C.Rel (p.run args) (p.run args) := by
  by_cases hglobals : p = .globals
  · subst hglobals
    exact C.rel_read (fun _ => C.rel_pure _) (fun _ _ => rfl) (fun _ _ => rfl)
  · by_cases hprint : p = .print
    · subst hprint
      exact C.rel_runPrint C.rel_print args
    · exact C.rel_primitive_of_ne hglobals hprint args

end JsonLisp
