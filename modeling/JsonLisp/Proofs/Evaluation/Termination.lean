import JsonLisp.Proofs.Evaluation.Depth

/-!
# Evaluation ends

Evaluation can be written as a plain recursion, in which the number of forms under evaluation is
only compared with its limit and the loop of expansions only with its own. Nothing bounds that
recursion from outside: bodies of closures and expansions of macros are new terms, and neither the
entries of a map, nor a step of expansion, nor the call of a closure counts as a form. Here it is
given as a program for each function that calls itself, with its calls left as calls. Such a
program may call on forever; that it ends with an outcome is a finite derivation.

Every program ends, with the outcome of `evaluate`, for all limits, states and arguments. The
induction is on the levels left, inside it on the steps of expansion left, and innermost on the
value or the list of forms.

## Main definitions

* `Recursion.Program`: computations with calls; `Recursion.body` gives what is called.
* `Recursion.Ends`: a program that ends.
* `Recursion.Follows`: having, at a given depth, the outcomes of a computation that ends.
* `Recursion.Law`: what holds of the recursion beside `evaluate` as soon as the parts of programs
  keep it.
* `Recursion.evaluation_ends`.
-/

namespace JsonLisp

namespace Recursion

/-! ### Programs with calls -/

/-- The calls that lead back into the recursion: evaluation, and the loop of expansions after a
number of steps. -/
inductive Call where
  | evaluate (v : Value) (env : Environment)
  | expandOn (steps : Int) (form : Value)

inductive Program : Type → Type 1 where
  | pure {α : Type} (a : α) : Program α
  | effect {α β : Type} (m : Run β) (k : β → Program α) : Program α
  | call {α : Type} (c : Call) (k : Value → Program α) : Program α
  /-- One more form is counted during `p`, whether it succeeds or fails. -/
  | nested {α : Type} (p : Program Value) (k : Value → Program α) : Program α

namespace Program

variable {α β : Type}

protected def bind : Program α → (α → Program β) → Program β
  | .pure a, f => f a
  | .effect m k, f => .effect m fun b => (k b).bind f
  | .call c k, f => .call c fun v => (k v).bind f
  | .nested p k, f => .nested p fun v => (k v).bind f

instance : Monad Program where
  pure := .pure
  bind := .bind

end Program

variable {α β : Type}

def ofRun (m : Run α) : Program α := .effect m .pure

def ofExcept (x : Except Error α) : Program α := ofRun (Run.ofExcept x)

def fail (e : Error) : Program α := ofRun (throw e)

def state : Program State := ofRun get

/-! ### The recursion -/

def evaluateLater (v : Value) (env : Environment) : Program Value := .call (.evaluate v env) .pure

def evalEntries : List (Text × Value) → Environment → Program (List (Text × Value))
  | [], _ => pure []
  | (key, v) :: rest, env => do
    let value ← evaluateLater v env
    let entries ← evalEntries rest env
    return (key, value) :: entries

def evalSequence (env : Environment) : List Value → Program Value
  | [] => pure .null
  | [form] => evaluateLater form env
  | form :: rest => do
    let _ ← evaluateLater form env
    evalSequence env rest

def evalArguments (env : Environment) : List Value → Program (List Value)
  | [] => pure []
  | form :: rest => do
    let value ← evaluateLater form env
    let values ← evalArguments env rest
    return value :: values

def evalDefine (env : Environment) : List Value → Program Value
  | [.text name, form] => do
    if (← state).globals.contains name then fail (.alreadyGlobal name)
    let value ← evaluateLater form env
    ofRun (Run.defineGlobal name value)
    return value
  | [other, _] => do fail (.demanded .definedName (← ofExcept other.display))
  | _ => fail (.argumentCount .define)

def evalConditional (env : Environment) : List Value → Program Value
  | [test, consequent] => do
    if (← evaluateLater test env).isTrue then evaluateLater consequent env else return .null
  | [test, consequent, alternative] => do
    if (← evaluateLater test env).isTrue then evaluateLater consequent env
    else evaluateLater alternative env
  | _ => fail (.argumentCount .conditional)

def evalMacroDefinition (env : Environment) : List Value → Program Value
  | .text name :: .list params :: body => do
    if (← state).macros.contains name then fail (.alreadyMacro name)
    let transformer ←
      evaluateLater (.list (.text SpecialForm.fnName :: .list params :: body)) env
    ofRun (Run.defineMacro name transformer)
    return .text name
  | .text _ :: _ :: _ => fail .macroParameters
  | other :: _ :: _ => do fail (.demanded .macroName (← ofExcept other.display))
  | _ => fail (.argumentCount .macroDefinition)

def evalSpecialForm (form : SpecialForm) (env : Environment) (parts : List Value) :
    Program Value :=
  match form with
  | .quote => ofRun (SpecialForm.runQuote parts)
  | .define => evalDefine env parts
  | .conditional => evalConditional env parts
  | .function => ofRun (SpecialForm.runFunction env parts)
  | .macroDefinition => evalMacroDefinition env parts
  | .sequence => evalSequence env parts

def applyClosure (form : List Value) (scope : Environment) (args : List Value) : Program Value :=
  match form with
  | _ :: .list params :: body => do
    let frame ← ofExcept (Pattern.bind params args)
    evalSequence (scope.extend frame) body
  | _ :: other :: _ => do fail (.demanded .parameterList (← ofExcept other.encode))
  | _ => fail .noParameterList

def apply (f : Value) (args : List Value) : Program Value :=
  match f with
  | .map entries => ofExcept (applyMap entries args)
  | .closure _ form scope => applyClosure form scope args
  | .builtin name =>
    match Primitive.ofName? name with
    | some p => ofRun (p.run args)
    | none => fail (.undefinedBuiltin name)
  | other => do fail (.notAFunction (← ofExcept other.encode))

def evalCall (head : Value) (args : List Value) (env : Environment) : Program Value := do
  let f ← evaluateLater head env
  let values ← evalArguments env args
  apply f values

def expandOnce (name : Text) (args : List Value) : Program Value := do
  match (← state).macros.find? name with
  | some transformer => apply transformer args
  | none => fail (.absentKey (Text.quoted name))

section Limited

variable (limits : Limits)

/-- Expands a form that `steps` expansions have led to, as long as it is the call of a macro. -/
def expandOn (steps : Int) (form : Value) : Program Value := do
  match macroCall? (← state).macros form with
  | some (name, args) =>
    if limits.expansion ≤ steps then fail (.stillExpanding name steps)
    let next ← expandOnce name args
    .call (.expandOn (steps + 1) next) .pure
  | none => return form

def expand (name : Text) (args : List Value) : Program Value := do
  let form ← expandOnce name args
  expandOn limits 1 form

def evalForm (head : Value) (args : List Value) (env : Environment) : Program Value :=
  match head with
  | .text name =>
    match SpecialForm.ofName? name with
    | some form => evalSpecialForm form env args
    | none => do
      if (← state).macros.contains name then
        let expansion ← expand limits name args
        evaluateLater expansion env
      else evalCall (.text name) args env
  | other => evalCall other args env

def evaluate : Value → Environment → Program Value
  | .text name, env => ofRun (lookup name env)
  | .list (head :: args), env => do
    if limits.evaluation ≤ (← state).depth then fail (.nestedTooDeep limits.evaluation)
    .nested (evalForm limits head args env) .pure
  | .map entries, env => do return .map (← evalEntries entries env)
  | other, _ => pure other

/-- What is called. -/
def body : Call → Program Value
  | .evaluate v env => evaluate limits v env
  | .expandOn steps form => expandOn limits steps form

/-! ### Ends -/

/-- From the state `s` a program ends with an outcome. An error ends all that is under way. -/
inductive Ends : {α : Type} → Program α → State → Outcome Error α → Prop
  | pure {α : Type} (a : α) (s : State) : Ends (.pure a) s (.ok a s)
  | effect {α β : Type} {m : Run β} {k : β → Program α} {s t : State} {b : β}
      {r : Outcome Error α} (hm : m s = .ok b t) (hk : Ends (k b) t r) : Ends (.effect m k) s r
  | effect_error {α β : Type} {m : Run β} {k : β → Program α} {s t : State} {e : Error}
      (hm : m s = .error e t) : Ends (.effect m k) s (.error e t)
  | call {α : Type} {c : Call} {k : Value → Program α} {s t : State} {v : Value}
      {r : Outcome Error α} (hc : Ends (body limits c) s (.ok v t)) (hk : Ends (k v) t r) :
      Ends (.call c k) s r
  | call_error {α : Type} {c : Call} {k : Value → Program α} {s t : State} {e : Error}
      (hc : Ends (body limits c) s (.error e t)) : Ends (.call c k) s (.error e t)
  | nested {α : Type} {p : Program Value} {k : Value → Program α} {s t : State} {v : Value}
      {r : Outcome Error α} (hp : Ends p (s.atDepth (s.depth + 1)) (.ok v t))
      (hk : Ends (k v) (t.atDepth (t.depth - 1)) r) : Ends (.nested p k) s r
  | nested_error {α : Type} {p : Program Value} {k : Value → Program α} {s t : State} {e : Error}
      (hp : Ends p (s.atDepth (s.depth + 1)) (.error e t)) :
      Ends (.nested p k) s (.error e (t.atDepth (t.depth - 1)))

end Limited

namespace Ends

variable {limits : Limits} {p : Program α} {f : α → Program β} {s t : State}

/-- A program ends in one way only. -/
theorem deterministic {r r' : Outcome Error α} (h : Ends limits p s r) (h' : Ends limits p s r') :
    r = r' := by
  induction h with
  | pure a s =>
    cases h'
    rfl
  | effect hm _ ih =>
    cases h' with
    | effect hm' hk' =>
      rw [hm] at hm'
      cases hm'
      exact ih hk'
    | effect_error hm' =>
      rw [hm] at hm'
      cases hm'
  | effect_error hm =>
    cases h' with
    | effect hm' hk' =>
      rw [hm] at hm'
      cases hm'
    | effect_error hm' =>
      rw [hm] at hm'
      cases hm'
      rfl
  | call _ _ ihc ihk =>
    cases h' with
    | call hc' hk' =>
      cases ihc hc'
      exact ihk hk'
    | call_error hc' => cases ihc hc'
  | call_error _ ih =>
    cases h' with
    | call hc' hk' => cases ih hc'
    | call_error hc' =>
      cases ih hc'
      rfl
  | nested _ _ ihp ihk =>
    cases h' with
    | nested hp' hk' =>
      cases ihp hp'
      exact ihk hk'
    | nested_error hp' => cases ihp hp'
  | nested_error _ ih =>
    cases h' with
    | nested hp' hk' => cases ih hp'
    | nested_error hp' =>
      cases ih hp'
      rfl

theorem bind {a : α} {r : Outcome Error β} (h : Ends limits p s (.ok a t))
    (hf : Ends limits (f a) t r) : Ends limits (p >>= f) s r := by
  generalize hok : (.ok a t : Outcome Error α) = r₀ at h
  induction h with
  | pure =>
    cases hok
    exact hf
  | effect hm _ ih => exact .effect hm (ih hf hok)
  | call hc _ _ ih => exact .call hc (ih hf hok)
  | nested hp _ _ ih => exact .nested hp (ih hf hok)
  | effect_error | call_error | nested_error => cases hok

theorem bind_error {e : Error} (h : Ends limits p s (.error e t)) :
    Ends limits (p >>= f) s (.error e t) := by
  generalize herror : (.error e t : Outcome Error α) = r at h
  induction h with
  | pure => cases herror
  | effect hm _ ih => exact .effect hm (ih herror)
  | call hc _ _ ih => exact .call hc (ih herror)
  | nested hp _ _ ih => exact .nested hp (ih herror)
  | effect_error hm =>
    cases herror
    exact .effect_error hm
  | call_error hc =>
    cases herror
    exact .call_error hc
  | nested_error hp =>
    cases herror
    exact .nested_error hp

theorem read {f : State → Program α} {r : Outcome Error α} (h : Ends limits (f s) s r) :
    Ends limits (state >>= f) s r := .effect rfl h

end Ends

/-! ### Following a computation that ends -/

/-- From every state with `d` forms under evaluation, the program ends with the outcome of `m`, and
as many forms are under evaluation at its end. -/
def Follows (limits : Limits) (d : Nat) (p : Program α) (m : Run α) : Prop :=
  ∀ s : State, s.depth = d → Ends limits p s (m s) ∧ (Outcome.state (m s)).depth = d

namespace Follows

variable {limits : Limits} {d : Nat} {p : Program α} {m : Run α}

theorem pure (a : α) : Follows limits d (Pure.pure a) (Pure.pure a) :=
  fun s hs => ⟨.pure a s, hs⟩

/-- A computation without calls. -/
theorem ofRun (h : (Congruence.sameAtDepth d).Rel m m) : Follows limits d (ofRun m) m := by
  intro s hs
  refine ⟨?_, (h s hs).2⟩
  cases hm : m s with
  | ok a t => exact .effect hm (.pure a t)
  | error e t => exact .effect_error hm

theorem fail_bind (e : Error) (k : β → Program α) :
    Follows limits d (Recursion.fail e >>= k) (throw e) :=
  fun _ hs => ⟨.effect_error rfl, hs⟩

theorem bind {f : α → Program β} {g : α → Run β} (hp : Follows limits d p m)
    (hf : ∀ a, Follows limits d (f a) (g a)) : Follows limits d (p >>= f) (m >>= g) := by
  intro s hs
  obtain ⟨hend, hdepth⟩ := hp s hs
  cases h : m s with
  | ok a t =>
    rw [h] at hend hdepth
    rw [bind_of_ok h]
    obtain ⟨hrest, hrestDepth⟩ := hf a t hdepth
    exact ⟨hend.bind hrest, hrestDepth⟩
  | error e t =>
    rw [h] at hend hdepth
    rw [bind_of_error h]
    exact ⟨hend.bind_error, hdepth⟩

theorem read {f : State → Program α} {g : State → Run α}
    (hf : ∀ s : State, s.depth = d → Follows limits d (f s) (g s)) :
    Follows limits d (state >>= f) (get >>= g) := by
  intro s hs
  obtain ⟨hend, hdepth⟩ := hf s hs s hs
  exact ⟨hend.read, hdepth⟩

theorem call {c : Call} {m : Run Value} (h : Follows limits d (body limits c) m) :
    Follows limits d (.call c .pure) m := by
  intro s hs
  obtain ⟨hend, hdepth⟩ := h s hs
  refine ⟨?_, hdepth⟩
  cases hm : m s with
  | ok v t =>
    rw [hm] at hend
    exact .call hend (.pure v t)
  | error e t =>
    rw [hm] at hend
    exact .call_error hend

theorem nested {p : Program Value} {m : Run Value} (h : Follows limits (d + 1) p m) :
    Follows limits d (.nested p .pure) (Run.nested m) := by
  intro s hs
  obtain ⟨hend, hdepth⟩ := h (s.atDepth (s.depth + 1)) (by rw [State.depth_atDepth, hs])
  rw [nested_eq_mapState]
  cases hm : m (s.atDepth (s.depth + 1)) with
  | ok v t =>
    rw [hm] at hend hdepth
    have hback : t.depth - 1 = d := by rw [show t.depth = d + 1 from hdepth]; rfl
    exact ⟨.nested hend (.pure v _), hback⟩
  | error e t =>
    rw [hm] at hend hdepth
    have hback : t.depth - 1 = d := by rw [show t.depth = d + 1 from hdepth]; rfl
    exact ⟨.nested_error hend, hback⟩

end Follows

/-! ### Laws of the recursion -/

/-- A relation between programs and computations at each depth that the parts of programs keep.
Computations without calls are respected by all congruences, and a form is counted below the limit
only. -/
structure Law (limits : Limits) where
  Holds : ∀ {α : Type}, Nat → Program α → Run α → Prop
  holds_pure : ∀ {α : Type} (d : Nat) (a : α), Holds d (pure a) (pure a)
  holds_ofRun : ∀ {α : Type} {d : Nat} {m : Run α}, (∀ C : StateCongruence, C.Rel m m) →
    Holds d (ofRun m) m
  holds_fail_bind : ∀ {α β : Type} (d : Nat) (e : Error) (k : β → Program α),
    Holds d (fail e >>= k) (throw e)
  holds_bind : ∀ {α β : Type} {d : Nat} {p : Program α} {m : Run α} {f : α → Program β}
    {g : α → Run β}, Holds d p m → (∀ a, Holds d (f a) (g a)) → Holds d (p >>= f) (m >>= g)
  holds_read : ∀ {α : Type} {d : Nat} {f : State → Program α} {g : State → Run α},
    (∀ s : State, s.depth = d → Holds d (f s) (g s)) → Holds d (state >>= f) (get >>= g)
  holds_call : ∀ {d : Nat} {c : Call} {m : Run Value}, Holds d (body limits c) m →
    Holds d (.call c .pure) m
  holds_nested : ∀ {d : Nat} {p : Program Value} {m : Run Value}, d < limits.evaluation →
    Holds (d + 1) p m → Holds d (.nested p .pure) (Run.nested m)

namespace Law

section Programs

variable {limits : Limits} (L : Law limits) {d : Nat}

theorem holds_ofExcept (x : Except Error α) : L.Holds d (ofExcept x) (Run.ofExcept x) :=
  L.holds_ofRun fun C => C.rel_ofExcept x

theorem holds_fail (e : Error) : L.Holds d (fail e : Program α) (throw e) :=
  L.holds_ofRun fun C => C.rel_throw e

theorem holds_refusal (x : Except Error Text) (refusal : Text → Error) :
    L.Holds d (ofExcept x >>= fun shown => fail (refusal shown))
      (Run.ofExcept x >>= fun shown => (throw (refusal shown) : Run α)) :=
  L.holds_bind (L.holds_ofExcept x) fun _ => L.holds_fail _

/-- A check in front of a computation. -/
theorem holds_check (c : Prop) [Decidable c] (e : Error) {k : Unit → Program α}
    {k' : Unit → Run α} (h : L.Holds d (k ()) (k' ())) :
    L.Holds d (if c then fail e >>= k else k ()) (if c then throw e >>= k' else k' ()) := by
  split
  · exact L.holds_bind (L.holds_fail e) fun _ => h
  · exact h

end Programs

/-! ### Parts of forms -/

section Parts

variable {limits : Limits} {d : Nat} {e : Engine}

/-- An engine for which the law holds at a given depth, on the primitives of a session. -/
structure EngineHolds (L : Law limits) (d : Nat) (e : Engine) : Prop where
  eval : ∀ v env, L.Holds d (evaluateLater v env) (e.eval v env)
  primitive : e.primitive = Primitive.run

variable {L : Law limits} (h : L.EngineHolds d e)
include h

theorem holds_evalSequence (env : Environment) (forms : List Value) :
    L.Holds d (evalSequence env forms) (JsonLisp.evalSequence e.eval env forms) := by
  induction forms with
  | nil => exact L.holds_pure d _
  | cons form rest ih =>
    cases rest with
    | nil => exact h.eval form env
    | cons => exact L.holds_bind (h.eval form env) fun _ => ih

theorem holds_evalArguments (env : Environment) (forms : List Value) :
    L.Holds d (evalArguments env forms) (JsonLisp.evalArguments e.eval env forms) := by
  induction forms with
  | nil => exact L.holds_pure d _
  | cons form rest ih =>
    exact L.holds_bind (h.eval form env) fun _ => L.holds_bind ih fun _ => L.holds_pure d _

theorem holds_evalDefine (env : Environment) (parts : List Value) :
    L.Holds d (evalDefine env parts) (SpecialForm.runDefine e.eval env parts) := by
  fun_cases SpecialForm.runDefine e.eval env parts with
  | case1 name form =>
    refine L.holds_read fun s _ => L.holds_check _ _ ?_
    refine L.holds_bind (h.eval form env) fun value =>
      L.holds_bind (L.holds_ofRun ?_) fun _ => L.holds_pure d _
    exact fun C => C.rel_defineGlobal name value
  | case2 other form hname =>
    rw [evalDefine]
    · exact L.holds_refusal _ _
    · exact hname
  | case3 parts hdefinition hother =>
    rw [evalDefine]
    · exact L.holds_fail _
    · exact hdefinition
    · exact hother

theorem holds_evalConditional (env : Environment) (parts : List Value) :
    L.Holds d (evalConditional env parts)
      (SpecialForm.runConditional e.eval env parts) := by
  fun_cases SpecialForm.runConditional e.eval env parts with
  | case1 test consequent =>
    refine L.holds_bind (h.eval test env) fun value => ?_
    split
    · exact h.eval consequent env
    · exact L.holds_pure d _
  | case2 test consequent alternative =>
    refine L.holds_bind (h.eval test env) fun value => ?_
    split
    · exact h.eval consequent env
    · exact h.eval alternative env
  | case3 parts htwo hthree =>
    rw [evalConditional]
    · exact L.holds_fail _
    · exact htwo
    · exact hthree

theorem holds_evalMacroDefinition (env : Environment) (parts : List Value) :
    L.Holds d (evalMacroDefinition env parts)
      (SpecialForm.runMacroDefinition e.eval env parts) := by
  fun_cases SpecialForm.runMacroDefinition e.eval env parts with
  | case1 name params body =>
    refine L.holds_read fun s _ => L.holds_check _ _ ?_
    refine L.holds_bind (h.eval _ env) fun transformer =>
      L.holds_bind (L.holds_ofRun ?_) fun _ => L.holds_pure d _
    exact fun C => C.rel_defineMacro name transformer
  | case2 name params body hlist =>
    rw [evalMacroDefinition]
    · exact L.holds_fail _
    · exact hlist
  | case3 other params body hdefinition hname =>
    rw [evalMacroDefinition]
    · exact L.holds_refusal _ _
    · exact hdefinition
    · exact hname
  | case4 parts hdefinition hname hother =>
    rw [evalMacroDefinition]
    · exact L.holds_fail _
    · exact hdefinition
    · exact hname
    · exact hother

theorem holds_evalSpecialForm (form : SpecialForm) (env : Environment) (parts : List Value) :
    L.Holds d (evalSpecialForm form env parts) (form.run e.eval env parts) := by
  -- Two special forms evaluate nothing, so that any evaluation may stand here.
  have hrespected (form : SpecialForm) (C : StateCongruence) :=
    C.rel_specialForm (fun v _ => C.rel_pure v) form env parts
  cases form with
  | quote => exact L.holds_ofRun (hrespected .quote)
  | function => exact L.holds_ofRun (hrespected .function)
  | define => exact holds_evalDefine h env parts
  | conditional => exact holds_evalConditional h env parts
  | macroDefinition => exact holds_evalMacroDefinition h env parts
  | sequence => exact holds_evalSequence h env parts

/-! ### Calls -/

theorem holds_applyClosure (form : List Value) (scope : Environment) (args : List Value) :
    L.Holds d (applyClosure form scope args)
      (JsonLisp.applyClosure e.eval form scope args) := by
  fun_cases JsonLisp.applyClosure e.eval form scope args with
  | case1 head params body =>
    exact L.holds_bind (L.holds_ofExcept _) fun frame => holds_evalSequence h _ body
  | case2 head other body hlist =>
    rw [applyClosure]
    · exact L.holds_refusal _ _
    · exact hlist
  | case3 form hlist hother =>
    rw [applyClosure]
    · exact L.holds_fail _
    · exact hlist
    · exact hother

theorem holds_apply (f : Value) (args : List Value) :
    L.Holds d (apply f args) (applyValue e f args) := by
  cases f with
  | map entries => exact L.holds_ofExcept _
  | closure identity form scope => exact holds_applyClosure h form scope args
  | builtin name =>
    rw [apply, applyValue, applyBuiltin, h.primitive]
    cases Primitive.ofName? name with
    | some p => exact L.holds_ofRun fun C => C.rel_primitive p args
    | none => exact L.holds_fail _
  | null | bool | int | float | text | list => exact L.holds_refusal _ _

theorem holds_evalCall (head : Value) (args : List Value) (env : Environment) :
    L.Holds d (evalCall head args env) (JsonLisp.evalCall e head args env) :=
  L.holds_bind (h.eval head env) fun f =>
    L.holds_bind (holds_evalArguments h env args) fun values => holds_apply h f values

/-! ### Expansion -/

theorem holds_expandOnce (name : Text) (args : List Value) :
    L.Holds d (expandOnce name args) (JsonLisp.expandOnce e name args) := by
  refine L.holds_read fun s _ => ?_
  cases s.macros.find? name with
  | some transformer => exact holds_apply h transformer args
  | none => exact L.holds_fail _

/-- The loop without a bound is the one with as many steps as the limit leaves. -/
theorem holds_expandOn {steps : Int} (hpos : 1 ≤ steps) (hsteps : steps ≤ max limits.expansion 1)
    (form : Value) :
    L.Holds d (expandOn limits steps form) (expandFurther e (max limits.expansion 1)
      (limits.expansion - steps).toNat form) := by
  induction hleft : (limits.expansion - steps).toNat generalizing steps form with
  | zero =>
    have hfull : limits.expansion ≤ steps := by omega
    have hall : max limits.expansion 1 = steps := by omega
    rw [hall]
    refine L.holds_read fun s _ => ?_
    cases macroCall? s.macros form with
    | some call =>
      dsimp only
      rw [if_pos hfull]
      exact L.holds_fail_bind d _ _
    | none => exact L.holds_pure d form
  | succ left ih =>
    have hroom : ¬ limits.expansion ≤ steps := by omega
    refine L.holds_read fun s _ => ?_
    cases macroCall? s.macros form with
    | some call =>
      dsimp only
      rw [if_neg hroom]
      exact L.holds_bind (holds_expandOnce h call.1 call.2) fun next =>
        L.holds_call (ih (by omega) (by omega) next (by omega))
    | none => exact L.holds_pure d form

theorem holds_expand (name : Text) (args : List Value) :
    L.Holds d (expand limits name args) (expandCall e limits.expansion name args) :=
  L.holds_bind (holds_expandOnce h name args) fun form =>
    holds_expandOn h (Int.le_refl 1) (Int.le_max_right _ _) form

/-! ### Forms and values -/

theorem holds_evalForm (head : Value) (args : List Value) (env : Environment) :
    L.Holds d (evalForm limits head args env)
      (JsonLisp.evalForm limits e head args env) := by
  cases head with
  | text name =>
    rw [evalForm, JsonLisp.evalForm]
    cases SpecialForm.ofName? name with
    | some form => exact holds_evalSpecialForm h form env args
    | none =>
      refine L.holds_read fun s _ => ?_
      split
      · exact L.holds_bind (holds_expand h name args) fun expansion => h.eval expansion env
      · exact holds_evalCall h _ args env
  | null | bool | int | float | list | map | closure | builtin =>
    exact holds_evalCall h _ args env

end Parts

section Values

variable {limits : Limits} {L : Law limits} {d : Nat}
  {onForm : Value → List Value → Environment → Run Value}

/-- Where the law holds of the evaluation of forms by `onForm`. -/
def FormsHold (L : Law limits) (d : Nat)
    (onForm : Value → List Value → Environment → Run Value) : Prop :=
  ∀ head args env,
    L.Holds d (evaluate limits (.list (head :: args)) env) (onForm head args env)

mutual

theorem holds_evalWith (hform : L.FormsHold d onForm) :
    ∀ v env, L.Holds d (evaluate limits v env) (evalWith onForm v env)
  | .text name, env => by
    rw [evalWith]
    exact L.holds_ofRun fun C => C.rel_lookup name env
  | .list (head :: args), env => by
    rw [evalWith]
    exact hform head args env
  | .map entries, env => by
    rw [evalWith]
    exact L.holds_bind (holds_evalEntries hform entries env) fun _ => L.holds_pure d _
  | .null, _ | .bool _, _ | .int _, _ | .float _, _ | .list [], _ | .closure _ _ _, _
  | .builtin _, _ => L.holds_pure d _

theorem holds_evalEntries (hform : L.FormsHold d onForm) :
    ∀ entries env, L.Holds d (evalEntries entries env)
      (JsonLisp.evalEntries onForm entries env)
  | [], _ => by
    rw [JsonLisp.evalEntries]
    exact L.holds_pure d _
  | (key, v) :: rest, env => by
    rw [JsonLisp.evalEntries]
    exact L.holds_bind (L.holds_call (holds_evalWith hform v env)) fun _ =>
      L.holds_bind (holds_evalEntries hform rest env) fun _ => L.holds_pure d _

end

end Values

/-! ### Evaluation -/

/-- At each depth the law holds of evaluation with the levels that are left there. -/
theorem holds_evalLevels {limits : Limits} (L : Law limits) {d levels : Nat}
    (hlevels : (limits.evaluation - d).toNat = levels) (v : Value) (env : Environment) :
    L.Holds d (evaluate limits v env) (evalLevels Primitive.run limits levels v env) := by
  induction levels generalizing d v env with
  | zero =>
    refine holds_evalWith (fun head args env => ?_) v env
    rw [evaluate]
    refine L.holds_read (g := fun _ => throw (.nestedTooDeep limits.evaluation)) fun s hs => ?_
    rw [if_pos (by omega)]
    exact L.holds_fail_bind d _ _
  | succ levels ih =>
    refine holds_evalWith (fun head args env => ?_) v env
    have hbelow : L.EngineHolds (d + 1)
        ⟨evalLevels Primitive.run limits levels, Primitive.run⟩ :=
      ⟨fun v env => L.holds_call (ih (by omega) v env), rfl⟩
    rw [evaluate]
    refine L.holds_read (g := fun _ => Run.nested _) fun s hs => ?_
    rw [if_neg (by omega)]
    exact L.holds_nested (by omega) (holds_evalForm hbelow head args env)

end Law

def followsLaw (limits : Limits) : Law limits where
  Holds := Follows limits
  holds_pure _ := .pure
  holds_ofRun h := .ofRun (h (Congruence.sameAtDepth _))
  holds_fail_bind _ := .fail_bind
  holds_bind := .bind
  holds_read := .read
  holds_call := .call
  holds_nested _ := .nested

theorem follows_evaluate (limits : Limits) (d : Nat) (v : Value) (env : Environment) :
    Follows limits d (evaluate limits v env) (JsonLisp.evaluate limits v env) := by
  intro s hs
  have hlevels : (limits.evaluation - d).toNat = levelsLeft limits s := by rw [levelsLeft, hs]
  exact (followsLaw limits).holds_evalLevels hlevels v env s hs

theorem followsEngine_session (limits : Limits) (d : Nat) :
    (followsLaw limits).EngineHolds d (engine limits) where
  eval v env := .call (follows_evaluate limits d v env)
  primitive := rfl

section Calls

variable {limits : Limits} {d : Nat} {e : Engine} (h : (followsLaw limits).EngineHolds d e)
include h

theorem follows_expand (name : Text) (args : List Value) :
    Follows limits d (expand limits name args) (expandCall e limits.expansion name args) :=
  Law.holds_expand h name args

theorem follows_apply (f : Value) (args : List Value) :
    Follows limits d (apply f args) (applyValue e f args) :=
  Law.holds_apply h f args

end Calls

theorem Follows.ends_iff {limits : Limits} {p : Program α} {m : Run α} {s : State}
    (h : Follows limits s.depth p m) (r : Outcome Error α) : Ends limits p s r ↔ r = m s := by
  obtain ⟨hend, -⟩ := h s rfl
  constructor
  · intro hr
    exact hr.deterministic hend
  · rintro rfl
    exact hend

/-- The recursion ends for all limits, in all states and environments, on every value, every
expansion and every call: there is one outcome, and it is that of `evaluate`, `expandCall` and
`applyValue`. -/
theorem evaluation_ends (limits : Limits) (s : State) :
    (∀ v env r, Ends limits (evaluate limits v env) s r ↔ r = JsonLisp.evaluate limits v env s) ∧
    (∀ name args r, Ends limits (expand limits name args) s r ↔
      r = expandCall (engine limits) limits.expansion name args s) ∧
    (∀ f args r, Ends limits (apply f args) s r ↔ r = applyValue (engine limits) f args s) := by
  have h := followsEngine_session limits s.depth
  exact ⟨fun v env => (follows_evaluate limits s.depth v env).ends_iff,
    fun name args => (follows_expand h name args).ends_iff,
    fun f args => (follows_apply h f args).ends_iff⟩

end Recursion

end JsonLisp
