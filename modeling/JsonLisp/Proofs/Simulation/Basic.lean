import JsonLisp.Proofs.Evaluation.Congruence
import JsonLisp.Proofs.Table
import Mathlib.Data.List.Forall2
import Mathlib.Data.Option.Basic
import Mathlib.Order.Defs.PartialOrder

/-!
# Simulations

Two runs can be in step although they work on different values: on closures with other scopes, or
on values of which more is known than their equality. A simulation relates the values and the states
of two such runs. It is indexed by worlds, which grow with the closures that are made.

## Main definitions

* `Value.Similar`: values of the same kind with related parts.
* `Simulation`: a relation of values, environments and states that evaluation cannot leave.
* `Simulation.Outcomes`, `Simulation.Runs`: related outcomes, and computations that have them.
-/

namespace JsonLisp

/-- Values under the same name or key. -/
def SameName (val : Value → Value → Prop) (e f : Text × Value) : Prop := e.1 = f.1 ∧ val e.2 f.2

/-- Values of the same kind with related parts. Closures may differ in their identities. -/
inductive Value.Similar (val : Value → Value → Prop) (env : Environment → Environment → Prop) :
    Value → Value → Prop
  | null : Similar val env .null .null
  | bool (b : Bool) : Similar val env (.bool b) (.bool b)
  | int (n : Int) : Similar val env (.int n) (.int n)
  | float (x : Binary64) : Similar val env (.float x) (.float x)
  | text (t : Text) : Similar val env (.text t) (.text t)
  | builtin (name : Text) : Similar val env (.builtin name) (.builtin name)
  | list {xs ys : List Value} : List.Forall₂ val xs ys → Similar val env (.list xs) (.list ys)
  | map {es fs : List (Text × Value)} : List.Forall₂ (SameName val) es fs →
      Similar val env (.map es) (.map fs)
  | closure {i j : Nat} {form form' : List Value} {scope scope' : Environment} :
      List.Forall₂ val form form' → env scope scope' →
      Similar val env (.closure i form scope) (.closure j form' scope')

/-- An error of the language other than a reference to a primitive that does not exist. -/
def ErrorKind.isForeseen : ErrorKind → Bool
  | .undefinedBuiltin => false
  | k => k.ofLanguage

/-- A closure that `defmacro` can make. -/
def Value.IsTransformer (v : Value) : Prop :=
  ∃ identity params body scope,
    v = .closure identity (.text SpecialForm.fnName :: .list params :: body) scope

/-- Related values, environments and states, such that each effect of evaluation keeps states
related and makes related values of related ones. `Possible` are the errors that can occur. -/
structure Simulation (W : Type) [Preorder W] where
  Val : W → Value → Value → Prop
  Env : W → Environment → Environment → Prop
  St : W → State → State → Prop
  Possible : Error → Prop
  val_mono : ∀ {w u a b}, w ≤ u → Val w a b → Val u a b
  env_mono : ∀ {w u env env'}, w ≤ u → Env w env env' → Env u env env'
  -- What related values have in common.
  val_similar : ∀ {w a b}, Val w a b → Value.Similar (Val w) (Env w) a b
  val_identity : ∀ {w i i' j j' form form' other other' scope scope' inner inner'},
    Val w (.closure i form scope) (.closure i' form' scope') →
    Val w (.closure j other inner) (.closure j' other' inner') → (i = j ↔ i' = j')
  val_wire : ∀ {w a b}, Val w a b → a.wire = b.wire
  val_display : ∀ {w a b}, Val w a b → a.display = b.display
  -- Values that are made during evaluation.
  val_null : ∀ w, Val w .null .null
  val_bool : ∀ w b, Val w (.bool b) (.bool b)
  val_int : ∀ w n, Val w (.int n) (.int n)
  val_float : ∀ w x, x.isFinite = true → Val w (.float x) (.float x)
  val_text : ∀ w t, Val w (.text t) (.text t)
  val_list : ∀ {w xs ys}, List.Forall₂ (Val w) xs ys → Val w (.list xs) (.list ys)
  val_map : ∀ {w es fs}, (es.map Prod.fst).Nodup → List.Forall₂ (SameName (Val w)) es fs →
    Val w (.map es) (.map fs)
  val_sameKeys : ∀ {w u es fs es' fs'}, Val w (.map es) (.map fs) →
    es'.map Prod.fst = es.map Prod.fst → List.Forall₂ (SameName (Val u)) es' fs' →
    Val u (.map es') (.map fs')
  -- Environments.
  env_root : ∀ w, Env w .root .root
  env_find : ∀ {w env env'} name, Env w env env' →
    Option.Rel (Val w) (env.find? name) (env'.find? name)
  env_extend : ∀ {w env env' frame frame'}, Env w env env' →
    List.Forall₂ (SameName (Val w)) frame frame' →
    Env w (env.extend frame) (env'.extend frame')
  -- States.
  st_globals : ∀ {w s t} name, St w s t →
    Option.Rel (Val w) (s.globals.find? name) (t.globals.find? name)
  st_names : ∀ {w s t}, St w s t → s.globals.names = t.globals.names
  st_macros : ∀ {w s t} name, St w s t →
    Option.Rel (fun f g => Val w f g ∨
      f = .builtin Primitive.letName ∧ g = .builtin Primitive.letName)
      (s.macros.find? name) (t.macros.find? name)
  st_depth : ∀ {w s t}, St w s t → s.depth = t.depth
  st_atDepth : ∀ {w s t} d, St w s t → St w (s.atDepth d) (t.atDepth d)
  st_print : ∀ {w s t a b}, Val w a b → St w s t →
    St w { s with printed := a.wire :: s.printed } { t with printed := a.wire :: t.printed }
  st_newClosure : ∀ {w s t env env' parts parts'}, St w s t → Env w env env' → parts ≠ [] →
    List.Forall₂ (Val w) parts parts' →
    ∃ u, w ≤ u ∧
      Val u (.closure s.nextIdentity (.text SpecialForm.fnName :: parts) env)
        (.closure t.nextIdentity (.text SpecialForm.fnName :: parts') env') ∧
      St u { s with nextIdentity := s.nextIdentity + 1 }
        { t with nextIdentity := t.nextIdentity + 1 }
  st_defineGlobal : ∀ {w s t a b} name, St w s t → Val w a b →
    s.globals.contains name = false →
    St w
      { s with
        globals := s.globals.add name a
        journal := .definedGlobal name :: s.journal }
      { t with
        globals := t.globals.add name b
        journal := .definedGlobal name :: t.journal }
  st_defineMacro : ∀ {w s t a b} name, St w s t → Val w a b → a.IsTransformer →
    s.macros.contains name = false →
    St w
      { s with
        macros := s.macros.add name a
        journal := .definedMacro name :: s.journal }
      { t with
        macros := t.macros.add name b
        journal := .definedMacro name :: t.journal }
  -- Errors.
  possible_foreseen : ∀ {e : Error}, e.kind.isForeseen = true → Possible e
  possible_reporting : ∀ fault {e}, Possible e → Possible (.reporting fault e)
  possible_display : ∀ {w a b e}, Val w a b → a.display = .error e → Possible e
  possible_undefined : ∀ {w name}, Val w (.builtin name) (.builtin name) →
    Primitive.ofName? name = none → Possible (.undefinedBuiltin name)
  possible_noParameterList : ∀ {w i j form form' scope scope'},
    Val w (.closure i form scope) (.closure j form' scope') → form.length < 2 →
    Possible .noParameterList

namespace Simulation

variable {W : Type} [Preorder W] (S : Simulation W) {α β γ δ : Type}

/-! ### Outcomes -/

/-- Both values or the same error, with related states. What is related by `R` may depend on a
world that has grown. -/
inductive Outcomes (w : W) (R : W → α → β → Prop) : Outcome Error α → Outcome Error β → Prop
  | ok {u : W} {a : α} {b : β} {s t : State} : w ≤ u → R u a b → S.St u s t →
      Outcomes w R (.ok a s) (.ok b t)
  | error {u : W} {e : Error} {s t : State} : w ≤ u → S.Possible e → S.St u s t →
      Outcomes w R (.error e s) (.error e t)

/-- Related outcomes from all related states. -/
def Runs (w : W) (R : W → α → β → Prop) (m : Run α) (m' : Run β) : Prop :=
  ∀ ⦃s t : State⦄, S.St w s t → S.Outcomes w R (m s) (m' t)

/-- Related results, or the same error. -/
inductive Results (R : α → β → Prop) : Except Error α → Except Error β → Prop
  | ok {a : α} {b : β} : R a b → Results R (.ok a) (.ok b)
  | error {e : Error} : S.Possible e → Results R (.error e) (.error e)

variable {S} {w : W} {R : W → α → β → Prop} {Q : W → γ → δ → Prop}

theorem Outcomes.mono {u : W} {r : Outcome Error α} {r' : Outcome Error β} (hwu : w ≤ u)
    (h : S.Outcomes u R r r') : S.Outcomes w R r r' := by
  cases h with
  | ok hle hab hst => exact .ok (le_trans hwu hle) hab hst
  | error hle he hst => exact .error (le_trans hwu hle) he hst

theorem Outcomes.states {r : Outcome Error α} {r' : Outcome Error β}
    (h : S.Outcomes w R r r') : ∃ u, w ≤ u ∧ S.St u (Outcome.state r) (Outcome.state r') := by
  cases h with
  | ok hle _ hst => exact ⟨_, hle, hst⟩
  | error hle _ hst => exact ⟨_, hle, hst⟩

theorem Outcomes.possible {e : Error} {s : State} {r' : Outcome Error β}
    (h : S.Outcomes w R (.error e s : Outcome Error α) r') : S.Possible e := by
  cases h with
  | error _ he _ => exact he

theorem outcomes_bind {m : Run α} {m' : Run β} {f : α → Run γ} {f' : β → Run δ} {s t : State}
    (hm : S.Outcomes w R (m s) (m' t))
    (hf : ∀ {u a b}, w ≤ u → R u a b → S.Runs u Q (f a) (f' b)) :
    S.Outcomes w Q ((m >>= f) s) ((m' >>= f') t) := by
  generalize hr : m s = r at hm
  generalize hr' : m' t = r' at hm
  cases hm with
  | ok hle hab hst =>
    rw [bind_of_ok hr, bind_of_ok hr']
    exact (hf hle hab hst).mono hle
  | error hle he hst =>
    rw [bind_of_error hr, bind_of_error hr']
    exact .error hle he hst

theorem runs_bind {m : Run α} {m' : Run β} {f : α → Run γ} {f' : β → Run δ}
    (hm : S.Runs w R m m') (hf : ∀ {u a b}, w ≤ u → R u a b → S.Runs u Q (f a) (f' b)) :
    S.Runs w Q (m >>= f) (m' >>= f') :=
  fun _ _ hst => outcomes_bind (hm hst) hf

theorem runs_pure {a : α} {b : β} (h : R w a b) : S.Runs w R (pure a) (pure b) :=
  fun _ _ hst => .ok le_rfl h hst

theorem runs_throw {e : Error} (h : S.Possible e) : S.Runs w R (throw e) (throw e) :=
  fun _ _ hst => .error le_rfl h hst

theorem runs_ofExcept {x : Except Error α} {y : Except Error β} (h : S.Results (R w) x y) :
    S.Runs w R (Run.ofExcept x) (Run.ofExcept y) := by
  cases h with
  | ok hab => exact runs_pure hab
  | error he => exact runs_throw he

/-- An error of a kind that is always foreseen. -/
theorem runs_foreseen {e : Error} (h : e.kind.isForeseen = true) :
    S.Runs w R (throw e) (throw e) :=
  runs_throw (S.possible_foreseen h)

theorem results_foreseen {R : α → β → Prop} {e : Error} (h : e.kind.isForeseen = true) :
    S.Results R (.error e) (.error e) :=
  .error (S.possible_foreseen h)

theorem results_bind {R : α → β → Prop} {Q : γ → δ → Prop} {x : Except Error α}
    {y : Except Error β} {f : α → Except Error γ} {g : β → Except Error δ}
    (h : S.Results R x y) (hf : ∀ {a b}, R a b → S.Results Q (f a) (g b)) :
    S.Results Q (x >>= f) (y >>= g) := by
  cases h with
  | ok hab => exact hf hab
  | error he => exact .error he

theorem Outcomes.mapState {g : State → State}
    (hg : ∀ {u s t}, S.St u s t → S.St u (g s) (g t)) {r : Outcome Error α}
    {r' : Outcome Error β} (h : S.Outcomes w R r r') :
    S.Outcomes w R (r.mapState g) (r'.mapState g) := by
  cases h with
  | ok hle hab hst => exact .ok hle hab (hg hst)
  | error hle he hst => exact .error hle he (hg hst)

/-- Counting a form during two related computations. -/
theorem runs_nested {m : Run α} {m' : Run β} (h : S.Runs w R m m') :
    S.Runs w R (Run.nested m) (Run.nested m') := by
  intro s t hst
  rw [nested_eq_mapState, nested_eq_mapState, ← S.st_depth hst]
  refine (h (S.st_atDepth (s.depth + 1) hst)).mapState fun {u s t} hst => ?_
  rw [S.st_depth hst]
  exact S.st_atDepth _ hst

/-! ### Lists of related values -/

theorem vals_mono {u : W} (h : w ≤ u) {xs ys : List Value} (hxs : List.Forall₂ (S.Val w) xs ys) :
    List.Forall₂ (S.Val u) xs ys :=
  hxs.imp fun _ _ hab => S.val_mono h hab

theorem entries_mono {u : W} (h : w ≤ u) {es fs : List (Text × Value)}
    (hes : List.Forall₂ (SameName (S.Val w)) es fs) :
    List.Forall₂ (SameName (S.Val u)) es fs :=
  hes.imp fun _ _ hef => ⟨hef.1, S.val_mono h hef.2⟩

theorem keys_eq {val : Value → Value → Prop} {es fs : List (Text × Value)}
    (h : List.Forall₂ (SameName val) es fs) : es.map Prod.fst = fs.map Prod.fst := by
  induction h with
  | nil => rfl
  | cons hef _ ih => rw [List.map_cons, List.map_cons, hef.1, ih]

theorem rel_imp {R R' : α → β → Prop} (h : ∀ a b, R a b → R' a b) {x : Option α}
    {y : Option β} (hxy : Option.Rel R x y) : Option.Rel R' x y := by
  cases hxy with
  | none => exact .none
  | some hab => exact .some (h _ _ hab)

/-- What is found under a key. -/
theorem valueUnder?_rel {val : Value → Value → Prop} {es fs : List (Text × Value)}
    (h : List.Forall₂ (SameName val) es fs) (key : Text) :
    Option.Rel val (valueUnder? key es) (valueUnder? key fs) := by
  induction h with
  | nil => exact .none
  | @cons e f es fs hef _ ih =>
    unfold valueUnder? at ih ⊢
    rw [List.find?_cons, List.find?_cons, ← hef.1]
    cases e.1 == key with
    | true => exact .some hef.2
    | false => exact ih

/-! ### Tables -/

/-- Two tables in which related values are found know the same names. -/
theorem contains_eq {rel : Value → Value → Prop} {t u : Table}
    (h : ∀ name, Option.Rel rel (t.find? name) (u.find? name)) (name : Text) :
    t.contains name = u.contains name := by
  rw [Bool.eq_iff_iff, Table.contains_iff_find?, Table.contains_iff_find?]
  have hname := h name
  constructor
  · rintro ⟨a, ha⟩
    rw [ha] at hname
    cases hu : u.find? name with
    | none => rw [hu] at hname; cases hname
    | some b => exact ⟨b, rfl⟩
  · rintro ⟨b, hb⟩
    rw [hb] at hname
    cases ht : t.find? name with
    | none => rw [ht] at hname; cases hname
    | some a => exact ⟨a, rfl⟩

theorem globals_contains_eq {s t : State} (h : S.St w s t) (name : Text) :
    s.globals.contains name = t.globals.contains name :=
  contains_eq (fun name => S.st_globals name h) name

theorem macros_contains_eq {s t : State} (h : S.St w s t) (name : Text) :
    s.macros.contains name = t.macros.contains name :=
  contains_eq (fun name => S.st_macros name h) name

/-- A name that is bound locally, or else globally. -/
theorem runs_lookup {env env' : Environment} (h : S.Env w env env') (name : Text) :
    S.Runs w S.Val (lookup name env) (lookup name env') := by
  intro s t hst
  unfold lookup
  have hlocal := S.env_find name h
  generalize env.find? name = local? at hlocal
  generalize env'.find? name = local?' at hlocal
  cases hlocal with
  | some hab => exact runs_pure hab hst
  | none =>
    change S.Outcomes w S.Val (Run.ofExcept (s.globals.lookup name) s)
      (Run.ofExcept (t.globals.lookup name) t)
    refine runs_ofExcept ?_ hst
    have hglobal := S.st_globals name hst
    unfold Table.lookup
    generalize s.globals.find? name = global? at hglobal
    generalize t.globals.find? name = global?' at hglobal
    cases hglobal with
    | some hab => exact .ok hab
    | none => exact results_foreseen rfl

end Simulation

end JsonLisp
