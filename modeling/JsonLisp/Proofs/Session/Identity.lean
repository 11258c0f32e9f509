import JsonLisp.Proofs.Evaluation.Passing
import JsonLisp.Proofs.Session.Functions
import JsonLisp.Proofs.Session.Programs
import JsonLisp.Proofs.Simulation.Registry

/-!
# The identity of closures

A closure is told from others by its identity. In all that can be at hand in a session, between the
actions and inside of their runs, closures with one identity are one closure, with one form and one
environment. The evaluation of an `fn` form makes a closure that is equal to nothing at hand, and
what passes closures on neither makes nor changes any.

## Main definitions

* `Value.Identified`, `Value.Unlike`: closures told apart by the equality of the language.
* `Session.Answered`: the states of a session, with all results so far.
* `Session.Action.KeepsIdentities`: what an action does with closures.
* `closures_identified`.
-/

namespace JsonLisp

open Recursion (Call Begins Ends)
open Text (ofString)
open Value (IsClosure Occurs PartOf word)

/-! ### Equality of closures -/

namespace Value

variable {i : Nat} {form : List Value} {scope : Environment}

theorem closure_same_iff {v : Value} : (closure i form scope).same v = true ↔
    ∃ form' scope', v = closure i form' scope' := by
  cases v with
  | closure j => simp [same, equalBy, equalAtoms, number?, @eq_comm _ i j]
  | _ => simp [same, equalBy, equalAtoms, number?]

theorem same_closure_iff {v : Value} : v.same (closure i form scope) = true ↔
    ∃ form' scope', v = closure i form' scope' := by
  cases v <;> simp [same, equalBy, equalAtoms, number?]

/-- Two closures that occur among the values are equal in the language only if they are one closure,
with one form and one environment. -/
def Identified (vs : List Value) : Prop :=
  ∀ c c', c.IsClosure → c'.IsClosure → Occurs c vs → Occurs c' vs → (c.same c' = true ↔ c = c')

/-- The value is equal to nothing that occurs among the others. -/
def Unlike (v : Value) (vs : List Value) : Prop :=
  ∀ u, Occurs u vs → v.same u = false ∧ u.same v = false

theorem IsClosure.same_self {c : Value} (hc : c.IsClosure) : c.same c = true := by
  obtain ⟨i, form, scope, rfl⟩ := hc
  exact closure_same_iff.2 ⟨form, scope, rfl⟩

variable {w : Registry} {vs : List Value}

theorem AllRegistered.identified (h : AllRegistered w vs) : Identified vs := by
  rintro _ _ ⟨i, form, scope, rfl⟩ ⟨j, form', scope', rfl⟩ hc hc'
  constructor
  · intro hsame
    obtain ⟨_, _, heq⟩ := closure_same_iff.1 hsame
    cases heq
    obtain ⟨rfl, rfl⟩ := w.unique (h.made hc) (h.made hc')
    rfl
  · rintro heq
    cases heq
    exact closure_same_iff.2 ⟨_, _, rfl⟩

/-- A closure with the identity that is next. -/
theorem AllRegistered.unlike (h : AllRegistered w vs) (hi : w.size = i) :
    Unlike (closure i form scope) vs := by
  intro v hv
  have hother : ¬ ∃ form' scope', v = closure i form' scope' := by
    rintro ⟨form', scope', rfl⟩
    exact absurd (w.lt_size (h.made hv)) (by omega)
  exact ⟨Bool.eq_false_iff.2 fun hsame => hother (closure_same_iff.1 hsame),
    Bool.eq_false_iff.2 fun hsame => hother (same_closure_iff.1 hsame)⟩

end Value

open Value (Identified Unlike AllRegistered)

/-! ### Values at hand -/

/-- The values that an environment binds. -/
def Environment.values (env : Environment) : List Value := env.items.map Prod.snd

/-- The values in the tables. -/
def State.values (s : State) : List Value := (s.globals.entries ++ s.macros.entries).map Prod.snd

/-- The values that are given with a call. -/
def Recursion.Call.values : Call → List Value
  | .evaluate v env => v :: env.values
  | .expandOn _ form => [form]

/-- The values that are given with an action. -/
def Session.Action.given : Session.Action → List Value
  | .text _ => []
  | .form v env => v :: env.values
  | .expansion v => [v]
  | .expansionStep v => [v]

section Registered

variable {w : Registry} {s : State} {env : Environment}

theorem Environment.allRegistered_values :
    AllRegistered w env.values ↔ ∀ b ∈ env.items, b.2.Registered w := List.forall_mem_map

theorem State.registered_iff :
    s.Registered w ↔ AllRegistered w s.values ∧ w.size = s.nextIdentity := by
  have hvalues : AllRegistered w s.values ↔ (∀ e ∈ s.globals.entries, e.2.Registered w) ∧
      ∀ e ∈ s.macros.entries, e.2.Registered w := by
    rw [← List.forall_mem_append]
    exact List.forall_mem_map
  rw [hvalues]
  exact ⟨fun h => ⟨⟨h.globals, h.macros⟩, h.size_eq⟩, fun h => ⟨h.1.1, h.1.2, h.2⟩⟩

theorem Simulation.registered_knows {c : Call} (h : registered.Knows w c) :
    AllRegistered w c.values := by
  cases c with
  | evaluate v env =>
    exact List.forall_mem_cons.2 ⟨h.1.1, Environment.allRegistered_values.2 h.2.1⟩
  | expandOn steps form => exact List.forall_mem_singleton.2 h.1

theorem Simulation.registered_knowsGiven {a : Session.Action} (h : AllRegistered w a.given) :
    registered.KnowsGiven w a := by
  cases a with
  | text request => trivial
  | form v env =>
    obtain ⟨hv, henv⟩ := List.forall_mem_cons.1 h
    exact ⟨⟨hv, rfl⟩, Environment.allRegistered_values.1 henv, rfl⟩
  | expansion v => exact ⟨List.forall_mem_singleton.1 h, rfl⟩
  | expansionStep v => exact ⟨List.forall_mem_singleton.1 h, rfl⟩

end Registered

/-! ### Actions -/

namespace Session

variable {limits : Limits} {s u : State} {a : Action} {results : List Value} {w : Registry}

/-- All closures that are given with the action occur among the values. -/
def Action.TakesFrom (a : Action) (vs : List Value) : Prop :=
  ∀ c, c.IsClosure → Occurs c a.given → Occurs c vs

/-- What an action leaves: the tables, and the result if it has one. -/
def Action.left (limits : Limits) (a : Action) (s : State) : List Value :=
  (Outcome.state (a.run limits s)).values ++ (Outcome.value? (a.run limits s)).toList

/-- What is at hand where a call begins in the run of an action: the tables, what is given with the
call, with those around it and with the action, what has been returned to these, and all earlier
results. -/
def Action.atHand (a : Action) (results : List Value) (c : Call) (u : State) (stack : List Call)
    (returned : List Value) : List Value :=
  u.values ++ c.values ++ stack.flatMap Call.values ++ returned ++ (a.given ++ results)

theorem Action.registered_left (limits : Limits) (ha : AllRegistered w a.given)
    (hs : s.Registered w) : ∃ x, w ≤ x ∧ (Outcome.state (a.run limits s)).Registered x ∧
      AllRegistered x (a.left limits s) := by
  have hupholds := Simulation.upholds_action limits (Simulation.registered_knowsGiven ha)
  obtain ⟨x, hle, hst, hvalue⟩ := hupholds.ends ⟨hs, rfl⟩ ((a.ends_iff _).2 rfl)
  refine ⟨x, hle, hst.1, (State.registered_iff.1 hst.1).1.append ?_⟩
  intro v hv
  have hok := Outcome.eq_ok_of_value? (Option.mem_toList.1 hv)
  exact (hvalue v _ hok).1

theorem Action.registered_atHand (ha : AllRegistered w a.given) (hresults : AllRegistered w results)
    (hs : s.Registered w) {c : Call} {stack : List Call} {returned : List Value}
    (hc : Begins limits c u (a.program limits) s stack returned) :
    ∃ x : Registry, x.size = u.nextIdentity ∧
      AllRegistered x (a.atHand results c u stack returned) := by
  have hupholds := Simulation.upholds_action limits (Simulation.registered_knowsGiven ha)
  obtain ⟨x, hle, hknown⟩ := hupholds.begins ⟨hs, rfl⟩ hc
  obtain ⟨hvalues, hsize⟩ := State.registered_iff.1 hknown.state.1
  have hstack : AllRegistered x (stack.flatMap Call.values) := by
    intro v hv
    obtain ⟨d, hd, hv⟩ := List.mem_flatMap.1 hv
    exact Simulation.registered_knows (hknown.stack d hd) v hv
  have hreturned : AllRegistered x returned := fun v hv => (hknown.returned v hv).1
  have hcall := hvalues.append (Simulation.registered_knows hknown.call)
  exact ⟨x, hsize, ((hcall.append hstack).append hreturned).append
    ((ha.append hresults).mono hle)⟩

/-- What an action does with closures where `results` are the earlier results. -/
structure Action.KeepsIdentities (limits : Limits) (results : List Value) (a : Action)
    (s : State) : Prop where
  /-- The run of the program is the action. -/
  ends_iff : ∀ r, Ends limits (a.program limits) s r ↔ r = a.run limits s
  /-- What has been made before and is left afterwards has been kept all the time. -/
  kept : ∀ {i form scope}, i < s.nextIdentity →
    Occurs (.closure i form scope) (a.left limits s) →
    Occurs (.closure i form scope) (s.values ++ results)
  grows : ∀ {c u stack returned}, Begins limits c u (a.program limits) s stack returned → s.Grows u
  identified : ∀ {c u stack returned}, Begins limits c u (a.program limits) s stack returned →
    Identified (a.atHand results c u stack returned)
  /-- Where the evaluation of an `fn` form begins, it yields a closure that is equal to nothing at
  hand, unless the form is too deep. -/
  makes : ∀ {part parts env u stack returned},
    let form := word "fn" :: part :: parts
    let made := Value.closure u.nextIdentity form env
    Begins limits (.evaluate (.list form) env) u (a.program limits) s stack returned →
    Unlike made (a.atHand results (.evaluate (.list form) env) u stack returned) ∧
      ∀ r, Ends limits (Recursion.evaluate limits (.list form) env) u r ↔
        r = if u.depth < limits.evaluation then .ok made u.afterClosure
          else .error (.nestedTooDeep limits.evaluation) u
  /-- Such an evaluation begins inside of macro definitions, of `let` and of `defun`. -/
  inside : ∀ {form params body env u stack returned}, MakesFunction limits u form params body →
    Begins limits (.evaluate form env) u (a.program limits) s stack returned →
    ∃ (d : Nat) (stack : List Call) (returned : List Value), d < limits.evaluation ∧
      Begins limits (.evaluate (.list (word "fn" :: params :: body)) env) (u.atDepth d)
        (a.program limits) s stack returned

/-! ### The states of a session -/

/-- The states that a session comes to, with the results of all actions so far. An action can have
any limits and any outcome, but it is given closures only that occur in the tables or in a result.
In between events are noted, the output is taken, and closures are made of such values from outside;
they count as results. -/
inductive Answered : List Value → State → Prop
  | initial : Answered [] initial
  | event {results : List Value} {s : State} (h : Answered results s) (e : Event) :
      Answered results { s with journal := e :: s.journal }
  | taken {results : List Value} {s : State} (h : Answered results s) :
      Answered results { s with printed := [] }
  | made {results : List Value} {s : State} (h : Answered results s) {form : List Value}
      {scope : Environment}
      (hparts : ∀ c, c.IsClosure → Occurs c (form ++ scope.values) →
        Occurs c (s.values ++ results)) :
      Answered (.closure s.nextIdentity form scope :: results) s.afterClosure
  | action {results : List Value} {s : State} (h : Answered results s) (limits : Limits)
      {a : Action} (ha : a.TakesFrom (s.values ++ results)) :
      Answered ((Outcome.value? (a.run limits s)).toList ++ results)
        (Outcome.state (a.run limits s))

theorem registered_initial : initial.Registered .empty where
  globals := List.forall_mem_map.2 fun _ _ => Value.registered_atom rfl
  macros := List.forall_mem_singleton.2 (Value.registered_atom rfl)
  size_eq := rfl

theorem Action.takesFrom_text (request : TextRequest) (vs : List Value) :
    (Action.text request).TakesFrom vs := fun _ _ hc => absurd hc Value.not_occurs_nil

/-- With a form without closures. -/
theorem Action.takesFrom_form {form : Value} (h : form.Registered .empty) (vs : List Value) :
    (Action.form form .root).TakesFrom vs := by
  have hgiven : AllRegistered .empty (Action.form form .root).given :=
    List.forall_mem_singleton.2 h
  rintro _ ⟨i, parts, scope, rfl⟩ hc
  exact (hgiven.made hc).elim

theorem Action.TakesFrom.registered {vs : List Value} (ha : a.TakesFrom vs)
    (h : AllRegistered w vs) : AllRegistered w a.given := h.of_occurs ha

namespace Answered

theorem registered (h : Answered results s) :
    ∃ w : Registry, s.Registered w ∧ AllRegistered w results := by
  induction h with
  | initial => exact ⟨.empty, registered_initial, fun _ hv => absurd hv List.not_mem_nil⟩
  | event _ e ih =>
    obtain ⟨w, hs, hresults⟩ := ih
    exact ⟨w, { hs with }, hresults⟩
  | taken _ ih =>
    obtain ⟨w, hs, hresults⟩ := ih
    exact ⟨w, { hs with }, hresults⟩
  | made _ hparts ih =>
    obtain ⟨w, hs, hresults⟩ := ih
    have hall := ((State.registered_iff.1 hs).1.append hresults).of_occurs hparts
    obtain ⟨hform, hscope⟩ := List.forall_mem_append.1 hall
    obtain ⟨hmade, hst⟩ := hs.newClosure hform (Environment.allRegistered_values.1 hscope)
    exact ⟨_, hst, List.forall_mem_cons.2 ⟨hmade, hresults.mono (w.le_add _ _)⟩⟩
  | action _ limits ha ih =>
    obtain ⟨w, hs, hresults⟩ := ih
    have hgiven := ha.registered ((State.registered_iff.1 hs).1.append hresults)
    obtain ⟨x, hle, hst, hleft⟩ := Action.registered_left limits hgiven hs
    have hvalue := (List.forall_mem_append.1 hleft).2
    exact ⟨x, hst, AllRegistered.append hvalue (hresults.mono hle)⟩

theorem furnished (h : Answered results s) : Furnished s := by
  induction h with
  | initial => exact furnished_initial
  | event _ e ih => exact ⟨ih.parallelBinding, ih.list, ih.append⟩
  | taken _ ih => exact ⟨ih.parallelBinding, ih.list, ih.append⟩
  | made _ _ ih => exact ⟨ih.parallelBinding, ih.list, ih.append⟩
  | @action _ s _ limits a _ ih => exact ih.grows (a.onlyGrows_run limits s)

theorem identified (h : Answered results s) : Identified (s.values ++ results) := by
  obtain ⟨w, hs, hresults⟩ := h.registered
  exact ((State.registered_iff.1 hs).1.append hresults).identified

/-- With a registry of what is at hand alone, all that is left later has been at hand or is new. -/
theorem kept (h : Answered results s) (limits : Limits) (ha : a.TakesFrom (s.values ++ results))
    {i : Nat} {form : List Value} {scope : Environment} (hi : i < s.nextIdentity)
    (hc : Occurs (.closure i form scope) (a.left limits s)) :
    Occurs (.closure i form scope) (s.values ++ results) := by
  obtain ⟨w, hs, hresults⟩ := h.registered
  obtain ⟨hvalues, hsize⟩ := State.registered_iff.1 hs
  let x := w.restrict (Occurs · (s.values ++ results))
  have hall : AllRegistered x (s.values ++ results) :=
    (hvalues.append hresults).restrict fun _ _ hc => hc
  have hst : s.Registered x :=
    State.registered_iff.2 ⟨(List.forall_mem_append.1 hall).1, hsize⟩
  obtain ⟨y, hle, -, hleft⟩ := Action.registered_left limits (ha.registered hall) hst
  exact ((hle.made_iff (Nat.lt_of_lt_of_eq hi hsize.symm)).1 (hleft.made hc)).2

theorem keepsIdentities (h : Answered results s) (limits : Limits)
    (ha : a.TakesFrom (s.values ++ results)) : a.KeepsIdentities limits results s := by
  obtain ⟨w, hs, hresults⟩ := h.registered
  have hgiven := ha.registered ((State.registered_iff.1 hs).1.append hresults)
  refine ⟨a.ends_iff, h.kept limits ha, Action.grows_of_begins, fun hc => ?_, fun hc => ⟨?_, ?_⟩,
    fun hmakes hc => ?_⟩
  · obtain ⟨x, -, hall⟩ := Action.registered_atHand hgiven hresults hs hc
    exact hall.identified
  · obtain ⟨x, hsize, hall⟩ := Action.registered_atHand hgiven hresults hs hc
    exact hall.unlike hsize
  · intro r
    rw [(Recursion.follows_evaluate limits _ _ _).ends_iff r]
    split
    · rename_i hroom
      rw [evaluate_function hroom]
    · rename_i hfull
      rw [evaluate_full (by omega)]
  · have hu := h.furnished.grows (Action.grows_of_begins hc)
    obtain ⟨d, stack, returned, hroom, hinner⟩ := hmakes.begins hu _
    exact ⟨d, _, _, hroom, hc.trans hinner⟩

/-- A line of the read loop is an action after the output has been taken, and a failure is noted. -/
theorem line (h : Answered results s) (limits : Limits) (line : Text) :
    ∃ more, Answered (more ++ results) (ReadLoop.respond limits line s).2 := by
  let evaluation := Action.text (.evaluate line)
  let quiet := ReadLoop.quiet s
  have hline : Answered ((Outcome.value? (evaluation.run limits quiet)).toList ++ results)
      (Outcome.state (ReadLoop.evalLine limits line quiet)) := by
    have hstate : Outcome.state (ReadLoop.evalLine limits line quiet) =
        Outcome.state (evaluation.run limits quiet) :=
      ReadLoop.state_bind_ofExcept _ Value.encode quiet
    rw [hstate]
    exact h.taken.action limits (Action.takesFrom_text _ _)
  unfold ReadLoop.respond
  split
  · exact ⟨[], h⟩
  · refine ⟨(Outcome.value? (evaluation.run limits quiet)).toList, ?_⟩
    change Answered _ (ReadLoop.answer limits line quiet).2
    unfold ReadLoop.answer
    cases hr : ReadLoop.evalLine limits line quiet with
    | ok text t =>
      rw [hr] at hline
      exact hline
    | error e t =>
      rw [hr] at hline
      exact hline.event _

end Answered

/-! ### Start -/

/-- There are no closures in the bootstrap programs. -/
theorem registered_bootstrapForms (w : Registry) :
    defunDefinition.Registered w ∧ notDefinition.Registered w := by
  constructor <;> simp [defunDefinition, notDefinition, template, Value.word]

/-- After each part of a start the session has answered some actions. -/
def answeredLaw : Start.Law where
  Holds m := ∀ s, (∃ results, Answered results s) →
    ∃ results, Answered results (Outcome.state (m s))
  holds_pure _ _ hs := hs
  holds_throw _ _ hs := hs
  holds_bind hm hf s hs := state_bind (p := fun t => ∃ results, Answered results t) (hm s hs)
    fun a t _ ht => hf a t ht
  holds_record := by
    rintro event - s ⟨results, h⟩
    rw [Start.state_ofRun]
    exact ⟨results, h.event (event s)⟩
  holds_evalTop := by
    rintro limits form hform s ⟨results, h⟩
    rw [Start.state_ofRun]
    have hnone : form.Registered .empty := by
      obtain rfl | rfl := hform
      · exact (registered_bootstrapForms _).1
      · exact (registered_bootstrapForms _).2
    exact ⟨_, h.action limits (Action.takesFrom_form hnone _)⟩
  holds_evalText := by
    rintro limits text s ⟨results, h⟩
    rw [Start.state_ofRun]
    exact ⟨_, h.action limits (Action.takesFrom_text (.eval text) _)⟩

theorem answered_start (surroundings : Surroundings) (files : Files) (prelude : Prelude)
    (expansion evaluation : Option Int) : ∃ results, Answered results
      (Outcome.state (start surroundings files prelude expansion evaluation initial)) :=
  answeredLaw.holds_start surroundings files prelude expansion evaluation initial ⟨[], .initial⟩

end Session

open Session (Action Answered start initial)

/-- Closures have sound identities. In all states that actions lead to, the starts and the lines of
the read loop included, closures that occur in the tables or in a result so far, at any depth, are
equal only if they are one closure, with one form and one environment. So it is with all that is at
hand inside of an action, where each evaluation of an `fn` form yields a closure that is equal to
nothing at hand. What passes closures on yields those that were passed on, each equal to itself, and
no others: names, code, quoted forms, expansions, definitions, maps and calls; parameters that are
bound to arguments; and the name of a definition wherever it is looked up later. -/
theorem closures_identified :
    (∀ results s, Answered results s → Identified (s.values ++ results) ∧
      (∀ limits (a : Action), a.TakesFrom (s.values ++ results) →
        a.KeepsIdentities limits results s) ∧
      ∀ limits line, ∃ more, Answered (more ++ results) (ReadLoop.respond limits line s).2) ∧
    (∀ surroundings files prelude expansion evaluation, ∃ results, Answered results
      (Outcome.state (start surroundings files prelude expansion evaluation initial))) ∧
    (∀ limits s env form given, Passes limits s env form given →
      ∃ v t, evaluate limits form env s = .ok v t ∧
        ∀ c, c.IsClosure → c.same c = true ∧ (PartOf c v ↔ Occurs c given)) ∧
    (∀ params args, Pattern.Matches params args → ∃ frame, Pattern.bind params args = .ok frame ∧
      ∀ c, c.IsClosure → (Occurs c (frame.map Prod.snd) ↔ Occurs c args)) ∧
    ∀ limits name form env v s t, evaluate limits (.definition name form) env s = .ok v t →
      ∀ u env', t.Grows u → env'.find? name = none →
        evaluate limits (.text name) env' u = .ok v u := by
  refine ⟨fun results s h => ⟨h.identified, fun limits a ha => h.keepsIdentities limits ha,
    h.line⟩, Session.answered_start, fun limits s env form given h => ?_,
    fun params args h => ?_, fun limits name form env v s t h u env' hgrows hlocal => ?_⟩
  · obtain ⟨v, t, heval, hclosures⟩ := h.evaluates
    exact ⟨v, t, heval, fun c hc => ⟨hc.same_self, hclosures c hc⟩⟩
  · obtain ⟨frame, hframe, -⟩ := h.exists_bind
    exact ⟨frame, hframe, fun c hc => h.occurs_iff hc hframe⟩
  · obtain ⟨_, hgrows⟩ := hgrows
    rw [evaluate_text]
    exact lookup_global hlocal (hgrows.globals.find? (evaluate_definition_ok h))

/-- A function is defined in a new session, and two look-ups put it into a list. Another function is
made, also inside of a `let`. -/
theorem closures_identified_twoFunctions :
    ∃ results s,
      start ⟨[], fun _ => none⟩ (fun path => .error (.refused .missing path)) .none (some 1)
        (some 9) initial = .ok ⟨1, 9⟩ s ∧
      let made := Value.closure s.nextIdentity [word "fn", .list [word "x"], word "x"]
        Environment.root
      let t := s.afterClosure.afterGlobal (ofString "f") made
      let other := [word "fn", .list [], word "f"]
      Answered (made :: results) t ∧ Identified (t.values ++ made :: results) ∧
        Unlike (.closure t.nextIdentity other Environment.root) (t.values ++ made :: results) ∧
        (Action.form (.list other) Environment.root).run ⟨1, 9⟩ t =
          .ok (.closure t.nextIdentity other Environment.root) t.afterClosure ∧
        (∃ (d : Nat) (stack : List Call) (returned : List Value),
          Begins ⟨1, 9⟩ (.evaluate (.list other) Environment.root) (t.atDepth d)
            ((Action.form (.letForm [] [word "f"]) Environment.root).program ⟨1, 9⟩) t stack
            returned) ∧
        evaluate ⟨1, 9⟩ (word "f") Environment.root t = .ok made t ∧
        ∃ v u, evaluate ⟨1, 9⟩ (.list [word "list", word "f", word "f"]) Environment.root t =
            .ok v u ∧ PartOf made v ∧ made.same made = true := by
  obtain ⟨hall, hstart, hpasses, -, hlookup⟩ := closures_identified
  let started := start ⟨[], fun _ => none⟩ (fun path => .error (.refused .missing path)) .none
    (some 1) (some 9) initial
  have hstarted : Outcome.value? started = some ⟨1, 9⟩ := by decide +kernel
  obtain ⟨hfree, hlist, hdepth⟩ : (Outcome.state started).globals.contains (ofString "f") = false ∧
      (Outcome.state started).macros.contains (ofString "list") = false ∧
      (Outcome.state started).depth = 0 := by decide +kernel
  have hok := Outcome.eq_ok_of_value? hstarted
  obtain ⟨results, hs⟩ : ∃ results, Answered results (Outcome.state started) := hstart _ _ _ _ _
  generalize Outcome.state started = s at hfree hlist hdepth hok hs
  refine ⟨results, s, hok, ?_⟩
  intro made t other
  -- The definition, and the look-up of the name.
  let definition := Value.definition (ofString "f") (.list [word "fn", .list [word "x"], word "x"])
  have hroom : s.depth + 2 ≤ (9 : Int) := by omega
  have hrun : evaluate ⟨1, 9⟩ definition Environment.root s = .ok made t :=
    evaluate_functionDefinition hfree hroom (.list [word "x"]) [word "x"] Environment.root
  have ht : Answered (made :: results) t := by
    have hnone : definition.Registered .empty := by simp [definition, Value.definition, word]
    have h := hs.action ⟨1, 9⟩ (Action.takesFrom_form hnone _)
    rwa [Action.run, hrun] at h
  have hf (d : Nat) : evaluate ⟨1, 9⟩ (word "f") Environment.root (t.atDepth d) =
      .ok made (t.atDepth d) :=
    hlookup ⟨1, 9⟩ _ _ Environment.root made s t hrun _ Environment.root (t.grows_atDepth d) rfl
  obtain ⟨hidentified, hactions, -⟩ := hall (made :: results) t ht
  have htdepth : t.depth = 0 := hdepth
  -- The other function.
  have hother : (Value.list other).Registered .empty := by simp [other, word]
  have hkeeps := hactions ⟨1, 9⟩ _ (Action.takesFrom_form hother _)
  have hbegins : Begins ⟨1, 9⟩ (.evaluate (.list other) Environment.root) t
      ((Action.form (.list other) Environment.root).program ⟨1, 9⟩) t [] [] := .here _
  obtain ⟨hunlike, hends⟩ := hkeeps.makes hbegins
  rw [if_pos (by dsimp only; omega)] at hends
  have hend : Ends ⟨1, 9⟩ ((Action.form (.list other) Environment.root).program ⟨1, 9⟩) t
      (.ok (.closure t.nextIdentity other Environment.root) t.afterClosure) :=
    .call ((hends _).2 rfl) (.pure _ _)
  -- The same function in a `let`.
  have hlet : (Value.letForm [] [word "f"]).Registered .empty := by
    simp [Value.letForm, alternating, word]
  have hletRoom : t.depth + 3 ≤ (9 : Int) := by omega
  obtain ⟨d, stack, returned, -, hinside⟩ :=
    (hactions ⟨1, 9⟩ _ (Action.takesFrom_form hlet _)).inside
      (.parallelBinding hletRoom [] [word "f"]) (.here _)
  -- The list.
  have hpassed : Passes ⟨1, 9⟩ t Environment.root (.list [word "list", word "f", word "f"])
      [made, made] := by
    refine .call ?_ (by dsimp only; omega) (f := .builtin (ofString "list"))
      (t := t.atDepth (t.depth + 1)) (u := t.atDepth (t.depth + 1)) ?_ ?_ (.list [made, made])
    · rintro _ ⟨rfl⟩
      exact ⟨rfl, hlist⟩
    · exact (evaluate_text _ _ _ _).trans (lookup_global rfl ht.furnished.list)
    · exact (bind_of_ok (hf _)).trans (bind_of_ok (bind_of_ok (hf _)))
  obtain ⟨v, u, hv, hclosures⟩ := hpasses ⟨1, 9⟩ t Environment.root _ _ hpassed
  obtain ⟨hsame, hpart⟩ := hclosures made ⟨_, _, _, rfl⟩
  refine ⟨ht, hidentified, fun v hv => hunlike v ?_, ((hkeeps.ends_iff _).1 hend).symm,
    ⟨d, stack, returned, hinside⟩, hf t.depth, v, u, hv,
    hpart.2 ⟨made, List.mem_cons_self, .self⟩, hsame⟩
  rw [Value.occurs_append] at hv
  simp only [Action.atHand, Value.occurs_append]
  exact hv.imp (fun h => .inl (.inl (.inl h))) .inr

end JsonLisp
