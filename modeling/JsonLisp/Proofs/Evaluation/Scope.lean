import JsonLisp.Proofs.Simulation.Requests
import JsonLisp.Proofs.Simulation.Texts
import Mathlib.Order.CompleteBooleanAlgebra
import Mathlib.Order.CompletePartialOrder

/-!
# Environments by their items

An environment is a chain of frames, but a program can only see its items: not in values, not in
errors or output, and not through closures that have captured it. Two runs whose environments have
the same items are a simulation, in which the captured environments have the same items as well.

## Main definitions

* `Value.flat`: a value with each captured environment in one frame.
* `Simulation.flat`: values, environments and states that are the same when flat.
* `evaluate_eq_of_items_eq`: evaluation in environments with the same items.
-/

namespace JsonLisp

open List (Forall₂)

namespace Value

mutual

/-- The items of every captured environment in one frame. -/
def flat : Value → Value
  | .list items => .list (flatItems items)
  | .map entries => .map (flatBindings entries)
  | .closure identity form scope => .closure identity (flatItems form) [flatScope scope]
  | other => other

def flatItems : List Value → List Value
  | [] => []
  | v :: rest => flat v :: flatItems rest

def flatBindings : List (Text × Value) → List (Text × Value)
  | [] => []
  | (name, v) :: rest => (name, flat v) :: flatBindings rest

def flatScope : List (List (Text × Value)) → List (Text × Value)
  | [] => []
  | frame :: rest => flatBindings frame ++ flatScope rest

end

/-! ### Items -/

theorem flatItems_eq_map (vs : List Value) : flatItems vs = vs.map flat := by
  induction vs with
  | nil => rfl
  | cons v rest ih => rw [flatItems, ih, List.map_cons]

theorem flatBindings_eq_map (bindings : List (Text × Value)) :
    flatBindings bindings = bindings.map fun b => (b.1, b.2.flat) := by
  induction bindings with
  | nil => rfl
  | cons b rest ih => rw [flatBindings, ih, List.map_cons]

theorem flatScope_eq (scope : Environment) : flatScope scope = flatBindings scope.items := by
  induction scope with
  | nil => rfl
  | cons frame rest ih =>
    rw [flatScope, ih]
    simp only [flatBindings_eq_map, Environment.items, List.flatten_cons, List.map_append]

/-- The same value up to the frames of captured environments. -/
def SameFlat (a b : Value) : Prop := a.flat = b.flat

theorem flatItems_eq_iff {xs ys : List Value} :
    flatItems xs = flatItems ys ↔ Forall₂ SameFlat xs ys := by
  rw [flatItems_eq_map, flatItems_eq_map, ← List.forall₂_eq_eq_eq, List.forall₂_map_left_iff,
    List.forall₂_map_right_iff]
  rfl

theorem flatBindings_eq_iff {es fs : List (Text × Value)} :
    flatBindings es = flatBindings fs ↔ Forall₂ (SameName SameFlat) es fs := by
  rw [flatBindings_eq_map, flatBindings_eq_map, ← List.forall₂_eq_eq_eq,
    List.forall₂_map_left_iff, List.forall₂_map_right_iff]
  simp only [Prod.mk.injEq]
  rfl

/-- Closures are the same if they have the same code over scopes with the same items. -/
theorem flat_closure_eq_iff {i j : Nat} {form form' : List Value} {scope scope' : Environment} :
    SameFlat (.closure i form scope) (.closure j form' scope') ↔
      i = j ∧ Forall₂ SameFlat form form' ∧
        Forall₂ (SameName SameFlat) scope.items scope'.items := by
  simp only [SameFlat, flat, flatScope_eq, Value.closure.injEq, List.cons.injEq, and_true,
    flatItems_eq_iff, flatBindings_eq_iff]

end Value

/-- The same bindings in the same order up to the frames of captured environments. -/
def Environment.SameItems (env env' : Environment) : Prop :=
  Forall₂ (SameName Value.SameFlat) env.items env'.items

theorem Value.SameFlat.similar {a b : Value} (h : SameFlat a b) :
    Similar SameFlat Environment.SameItems a b := by
  cases a with
  | null => cases b with
    | null => exact .null
    | _ => cases h
  | bool p => cases b with
    | bool q =>
      cases h
      exact .bool p
    | _ => cases h
  | int n => cases b with
    | int m =>
      cases h
      exact .int n
    | _ => cases h
  | float x => cases b with
    | float y =>
      cases h
      exact .float x
    | _ => cases h
  | text t => cases b with
    | text u =>
      cases h
      exact .text t
    | _ => cases h
  | builtin name => cases b with
    | builtin other =>
      cases h
      exact .builtin name
    | _ => cases h
  | list items => cases b with
    | list others => exact .list (flatItems_eq_iff.1 (Value.list.inj h))
    | _ => cases h
  | map entries => cases b with
    | map others => exact .map (flatBindings_eq_iff.1 (Value.map.inj h))
    | _ => cases h
  | closure i form scope => cases b with
    | closure j form' scope' =>
      obtain ⟨-, hform, hscope⟩ := flat_closure_eq_iff.1 h
      exact .closure hform hscope
    | _ => cases h

/-! ### States -/

/-- The values of both tables when flat. -/
def State.flat (s : State) : State :=
  { s with
    globals := ⟨Value.flatBindings s.globals.entries⟩
    macros := ⟨Value.flatBindings s.macros.entries⟩ }

/-- States that differ in the frames of captured environments at most. -/
structure State.SameFlat (s t : State) : Prop where
  globals : Forall₂ (SameName Value.SameFlat) s.globals.entries t.globals.entries
  macros : Forall₂ (SameName Value.SameFlat) s.macros.entries t.macros.entries
  printed : s.printed = t.printed
  journal : s.journal = t.journal
  depth : s.depth = t.depth
  nextIdentity : s.nextIdentity = t.nextIdentity

theorem State.flat_eq_iff {s t : State} : s.flat = t.flat ↔ s.SameFlat t := by
  constructor
  · intro h
    obtain ⟨hglobals, hmacros, hprinted, hjournal, hdepth, hidentity⟩ := State.mk.inj h
    exact ⟨Value.flatBindings_eq_iff.1 (Table.mk.inj hglobals),
      Value.flatBindings_eq_iff.1 (Table.mk.inj hmacros), hprinted, hjournal, hdepth, hidentity⟩
  · rintro ⟨hglobals, hmacros, hprinted, hjournal, hdepth, hidentity⟩
    unfold State.flat
    rw [Value.flatBindings_eq_iff.2 hglobals, Value.flatBindings_eq_iff.2 hmacros, hprinted,
      hjournal, hdepth, hidentity]

namespace Simulation

/-- The same up to the frames of captured environments. -/
def flat : Simulation Unit where
  Val _ := Value.SameFlat
  Env _ := Environment.SameItems
  St _ := State.SameFlat
  Possible _ := True
  val_mono _ h := h
  env_mono _ h := h
  val_similar h := h.similar
  val_identity h h' := by
    rw [(Value.flat_closure_eq_iff.1 h).1, (Value.flat_closure_eq_iff.1 h').1]
  val_wire := Value.wire_eq_of_similar Value.SameFlat.similar id
  val_display := Value.display_eq_of_similar Value.SameFlat.similar
  val_null _ := rfl
  val_bool _ _ := rfl
  val_int _ _ := rfl
  val_float _ _ _ := rfl
  val_text _ _ := rfl
  val_list h := congrArg Value.list (Value.flatItems_eq_iff.2 h)
  val_map _ h := congrArg Value.map (Value.flatBindings_eq_iff.2 h)
  val_sameKeys _ _ h := congrArg Value.map (Value.flatBindings_eq_iff.2 h)
  env_root _ := .nil
  env_find name h := by
    rw [Environment.find?_eq_items, Environment.find?_eq_items]
    exact valueUnder?_rel h name
  env_extend henv hframe := List.rel_append hframe henv
  st_globals name h := valueUnder?_rel h.globals name
  st_names h := keys_eq h.globals
  st_macros name h := rel_imp (fun _ _ => .inl) (valueUnder?_rel h.macros name)
  st_depth h := h.depth
  st_atDepth d h := { h with depth := rfl }
  st_print _ h := { h with printed := by rw [h.printed] }
  st_newClosure {_ s t _ _ parts parts'} h henv _ hparts := by
    refine ⟨(), le_rfl, ?_, { h with nextIdentity := by rw [h.nextIdentity] }⟩
    exact Value.flat_closure_eq_iff.2 ⟨h.nextIdentity, .cons rfl hparts, henv⟩
  st_defineGlobal name h hvalue _ :=
    { h with globals := .cons ⟨rfl, hvalue⟩ h.globals, journal := by rw [h.journal] }
  st_defineMacro name h hvalue _ _ :=
    { h with macros := .cons ⟨rfl, hvalue⟩ h.macros, journal := by rw [h.journal] }
  possible_foreseen _ := trivial
  possible_reporting _ _ _ := trivial
  possible_display _ _ := trivial
  possible_undefined _ _ := trivial
  possible_noParameterList _ _ := trivial

end Simulation

/-! ### Outcomes and requests -/

namespace Outcome

/-- The same value when flat, or the same error, in a state that is flat. -/
def flat : Outcome Error Value → Outcome Error Value
  | .ok v s => .ok v.flat s.flat
  | .error e s => .error e s.flat

/-- What is shown of an outcome: the text of the value, or the error. -/
def shown : Outcome Error Value → Except Error (Except Error Text)
  | .ok v _ => .ok v.encode
  | .error e _ => .error e

end Outcome

namespace Session

/-- A request with its form flat. -/
def Request.flat : Request → Request
  | .evaluate form => .evaluate form.flat
  | other => other

/-- What a request shows, and all that has been printed by then. -/
structure Answer where
  shown : Except Error (Except Error Text)
  output : Text

/-- The answers to requests, one after the other. -/
def answers (limits : Limits) : List Request → State → List Answer
  | [], _ => []
  | request :: rest, s =>
    let r := request.run limits s
    ⟨Outcome.shown r, (Outcome.state r).output⟩ :: answers limits rest (Outcome.state r)

end Session

open Session (Request answers)

section Flat

variable {w : Unit} {s t : State} {r r' : Outcome Error Value}

theorem State.SameFlat.output_eq (h : s.SameFlat t) : s.output = t.output := by
  unfold State.output
  rw [h.printed]

theorem Value.SameFlat.encode_eq {a b : Value} (h : SameFlat a b) : a.encode = b.encode := by
  unfold Value.encode
  rw [Simulation.flat.val_wire (w := ()) h]

theorem flat_eq_of_outcomes (h : Simulation.flat.Outcomes w Simulation.flat.Val r r') :
    Outcome.flat r = Outcome.flat r' := by
  cases h with
  | @ok u a b _ _ _ hab hst =>
    have hflat : a.flat = b.flat := hab
    rw [Outcome.flat, Outcome.flat, hflat, State.flat_eq_iff.2 hst]
  | error _ _ hst => rw [Outcome.flat, Outcome.flat, State.flat_eq_iff.2 hst]

theorem shown_eq_of_outcomes (h : Simulation.flat.Outcomes w Simulation.flat.Val r r') :
    Outcome.shown r = Outcome.shown r' := by
  cases h with
  | ok _ hab _ => rw [Outcome.shown, Outcome.shown, Value.SameFlat.encode_eq hab]
  | error => rfl

theorem sameFlat_of_outcomes (h : Simulation.flat.Outcomes w Simulation.flat.Val r r') :
    (Outcome.state r).SameFlat (Outcome.state r') := by
  obtain ⟨_, _, hst⟩ := h.states
  exact hst

theorem runs_request (limits : Limits) {request request' : Request}
    (h : request.flat = request'.flat) :
    Simulation.flat.Runs w Simulation.flat.Val (request.run limits) (request'.run limits) := by
  cases request with
  | eval text =>
    cases request' with
    | eval =>
      cases h
      exact Simulation.flat.runs_evalText limits text
    | _ => cases h
  | evaluate form =>
    cases request' with
    | evaluate form' =>
      have hform : form.SameFlat form' := Request.evaluate.inj h
      exact Simulation.flat.runs_evaluate limits hform .nil
    | _ => cases h
  | evalPrelude text =>
    cases request' with
    | evalPrelude =>
      cases h
      exact Simulation.runs_bind (Simulation.flat.runs_evalText limits text) fun _ _ =>
        Simulation.runs_pure rfl
    | _ => cases h

theorem answers_eq (limits : Limits) {requests requests' : List Request}
    (h : requests.map Request.flat = requests'.map Request.flat) (hst : s.SameFlat t) :
    answers limits requests s = answers limits requests' t := by
  induction requests generalizing requests' s t with
  | nil =>
    rw [List.map_eq_nil_iff.1 h.symm]
    rfl
  | cons request rest ih =>
    cases requests' with
    | nil => cases h
    | cons request' rest' =>
      obtain ⟨hfirst, hrest⟩ := List.cons.inj h
      have hrun := runs_request (w := ()) limits hfirst hst
      have hlater := sameFlat_of_outcomes hrun
      rw [answers, answers, shown_eq_of_outcomes hrun, hlater.output_eq, ih hrest hlater]

end Flat

/-- Evaluation sees the items of its environment and nothing else of it. In environments with the
same items it shows the same and prints the same, and its results and the tables that it leaves
differ in the frames of captured environments at most. So do all later requests. -/
theorem evaluate_eq_of_items_eq (limits : Limits) (form : Value) (s : State)
    {env env' : Environment} (h : env.items = env'.items) :
    let r := evaluate limits form env s
    let r' := evaluate limits form env' s
    Outcome.shown r = Outcome.shown r' ∧
    (Outcome.state r).output = (Outcome.state r').output ∧
    Outcome.flat r = Outcome.flat r' ∧
    ∀ requests requests' : List Request,
      requests.map Request.flat = requests'.map Request.flat →
        answers limits requests (Outcome.state r) = answers limits requests' (Outcome.state r') := by
  intro r r'
  have henv : env.SameItems env' := by
    rw [Environment.SameItems, h]
    exact Value.flatBindings_eq_iff.1 rfl
  have hrun : Simulation.flat.Outcomes () Simulation.flat.Val r r' :=
    Simulation.flat.runs_evaluate limits rfl henv (State.flat_eq_iff.1 rfl)
  have hstate := sameFlat_of_outcomes hrun
  exact ⟨shown_eq_of_outcomes hrun, hstate.output_eq, flat_eq_of_outcomes hrun,
    fun _ _ hrequests => answers_eq limits hrequests hstate⟩

open Value (word) in
/-- A closure over two frames, and one over a single frame with the same bindings, called later. -/
theorem evaluate_eq_of_items_eq_twoFrames :
    let env : Environment := [[([120], .int 1)], [([121], .int 2)]]
    let env' : Environment := [[([120], .int 1), ([121], .int 2)]]
    let sum : Value := .list [word "fn", .list [], .list [word "+", word "x", word "y"]]
    let form : Value := .list [word "def", word "f", sum]
    let r := evaluate ⟨1, 9⟩ form env Session.initial
    let r' := evaluate ⟨1, 9⟩ form env' Session.initial
    let calls : List Request := [.evaluate (.list [word "f"])]
    env ≠ env' ∧ env.items = env'.items ∧ (Outcome.value? r).isSome = true ∧
      Outcome.shown r = Outcome.shown r' ∧
      answers ⟨1, 9⟩ calls (Outcome.state r) = answers ⟨1, 9⟩ calls (Outcome.state r') := by
  intro env env' sum form r r' calls
  have hne : env ≠ env' := fun h => absurd (congrArg List.length h) (by decide)
  have hitems : env.items = env'.items := rfl
  obtain ⟨hshown, -, -, hlater⟩ := evaluate_eq_of_items_eq ⟨1, 9⟩ form Session.initial hitems
  exact ⟨hne, hitems, by decide +kernel, hshown, hlater calls calls rfl⟩

end JsonLisp
