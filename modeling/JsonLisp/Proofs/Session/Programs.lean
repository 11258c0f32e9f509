import JsonLisp.Proofs.Evaluation.Visits
import JsonLisp.Proofs.Session.Output
import JsonLisp.Proofs.Simulation.Calls

/-!
# Actions as programs

What can be asked of a session is a program of the recursion, like the evaluation of a form. So the
calls in its run are known, and what a simulation says holds of each of them.

## Main definitions

* `Session.Action.program`: an action with its calls left as calls.

## Main statements

* `Session.Action.ends_iff`: its run ends as the action does.
* `Simulation.upholds_action`: it keeps what a simulation says.
-/

namespace JsonLisp

open Recursion (Program Call Begins Ends evaluateLater ofExcept fail)

/-- The calls of a run begin in states that it passes through. -/
theorem Recursion.Begins.visits {limits : Limits} {α : Type} {p : Program α} {c : Call}
    {s u : State} {stack : List Call} {returned : List Value}
    (h : Begins limits c u p s stack returned) : Recursion.Visits limits p s u := by
  induction h with
  | here k => exact .start _ _
  | effect hm _ ih => exact .effect hm ih
  | inside _ ih => exact .call ih
  | after hend _ ih => exact .afterCall hend ih
  | nested _ ih => exact .nested ih
  | afterNested hend _ ih => exact .afterNested hend ih

namespace Session

def programOfText (text : Text) : Program Value := do
  let (forms, fault) := readAll text
  let value ← Recursion.evalSequence .root forms
  match fault with
  | some e => fail e
  | none => return value

def TextRequest.program : TextRequest → Program Value
  | .eval text => programOfText text
  | .evaluate text => do evaluateLater (← ofExcept (readOne text)) .root
  | .evalPrelude text => do
    let _ ← programOfText text
    return .null

/-- The actions of a session with the calls of the recursion left as calls. -/
def Action.program (limits : Limits) : Action → Program Value
  | .text request => request.program
  | .form v env => evaluateLater v env
  | .expansion v => do
    let (head, args) ← ofExcept (callParts v)
    Recursion.expand limits (← ofExcept (headName head)) args
  | .expansionStep v => do
    let (head, args) ← ofExcept (callParts v)
    Recursion.expandOnce (← ofExcept (headName head)) args

/-! ### Runs -/

section Law

variable {limits : Limits} {L : Recursion.Law limits} {d : Nat} {e : Engine}
  (h : L.EngineHolds d e)
include h

theorem holds_programOfText (text : Text) :
    L.Holds d (programOfText text) (evalTextBy e.eval text) := by
  unfold programOfText evalTextBy
  dsimp only
  refine L.holds_bind (Recursion.Law.holds_evalSequence h .root _) fun value => ?_
  cases (readAll text).2 with
  | some e => exact L.holds_fail e
  | none => exact L.holds_pure d value

theorem Action.holds_program (a : Action) : L.Holds d (a.program limits) (a.runBy limits e) := by
  cases a with
  | text request =>
    cases request with
    | eval text => exact holds_programOfText h text
    | evaluate text => exact L.holds_bind (L.holds_ofExcept _) fun form => h.eval form .root
    | evalPrelude text =>
      exact L.holds_bind (holds_programOfText h text) fun _ => L.holds_pure d _
  | form v env => exact h.eval v env
  | expansion v =>
    refine L.holds_bind (L.holds_ofExcept (callParts v)) fun call => ?_
    exact L.holds_bind (L.holds_ofExcept _) fun name => Recursion.Law.holds_expand h name call.2
  | expansionStep v =>
    refine L.holds_bind (L.holds_ofExcept (callParts v)) fun call => ?_
    exact L.holds_bind (L.holds_ofExcept _) fun name => Recursion.Law.holds_expandOnce h name call.2

end Law

section Runs

variable {limits : Limits} {s u : State} {c : Call} {stack : List Call} {returned : List Value}

theorem Action.ends_iff (a : Action) (r : Outcome Error Value) :
    Ends limits (a.program limits) s r ↔ r = a.run limits s := by
  rw [← a.runBy_engine]
  exact Recursion.Follows.ends_iff
    (Action.holds_program (Recursion.followsEngine_session limits s.depth) a) r

/-- The calls in the run begin in states that have grown from the first. -/
theorem Action.grows_of_begins {a : Action}
    (hc : Begins limits c u (a.program limits) s stack returned) : s.Grows u := by
  let L := Recursion.growthLaw limits
  have hengine : L.EngineHolds s.depth
      ⟨evalLevels Primitive.run limits (limits.evaluation - s.depth).toNat, Primitive.run⟩ :=
    ⟨fun v env => L.holds_call (L.holds_evalLevels rfl v env), rfl⟩
  exact ((Action.holds_program hengine a).2 s u rfl hc.visits).1

theorem Action.onlyGrows_run (limits : Limits) (a : Action) : OnlyGrows (a.run limits) := by
  have hengine : Congruence.growth.EngineRel (engine limits) (engine limits) :=
    ⟨onlyGrows_evaluate limits, Congruence.growth.rel_primitive⟩
  rw [← a.runBy_engine]
  exact Action.rel_runBy hengine limits a

end Runs

end Session

/-! ### What is known of the calls -/

namespace Simulation

open Session (Action readAll readOne callParts programOfText TextRequest)

variable {W : Type} [Preorder W] {S : Simulation W} {w : W}

theorem upholds_programOfText (text : Text) : S.Upholds w S.Val (programOfText text) := by
  have hforms : List.Forall₂ (S.Val w) (readAll text).1 (readAll text).1 :=
    S.vals_ofJsonItems w (Json.sound_of_decodeAll text)
  unfold programOfText
  generalize readAll text = read at hforms
  obtain ⟨forms, fault⟩ := read
  refine upholds_bind (upholds_evalSequence (S.env_root w) hforms) fun _ hvalue => ?_
  cases fault with
  | some e => exact upholds_fail e
  | none => exact upholds_pure hvalue

theorem upholds_textRequest (request : TextRequest) : S.Upholds w S.Val request.program := by
  cases request with
  | eval text => exact upholds_programOfText text
  | evaluate text =>
    have hform : S.Upholds w S.Val (ofExcept (readOne text)) := by
      refine upholds_ofExcept fun v hv => ?_
      unfold readOne at hv
      split at hv
      · rename_i hread
        cases hv
        exact S.val_ofJson w (Json.sound_of_decode hread)
      · cases hv
    exact upholds_bind hform fun _ hv => upholds_evaluateLater hv (S.env_root _)
  | evalPrelude text =>
    exact upholds_bind (upholds_programOfText text) fun _ _ => upholds_pure (S.val_null _)

/-- The arguments of the call that is to be expanded are parts of the form. -/
theorem vals_callParts {form head : Value} {args : List Value} (hform : S.Val w form form)
    (h : callParts form = .ok (head, args)) : List.Forall₂ (S.Val w) args args := by
  unfold callParts at h
  split at h
  · cases h
    cases S.val_similar hform with
    | list hitems => exact (List.forall₂_cons.1 hitems).2
  · cases h
    exact List.forall₂_same.2 (List.forall_mem_map.2 fun c _ => S.val_text w [c])
  all_goals cases h

theorem upholds_call {form : Value} (hform : S.Val w form form)
    {k : Text → List Value → Program Value}
    (hk : ∀ {u name args}, w ≤ u → List.Forall₂ (S.Val u) args args →
      S.Upholds u S.Val (k name args)) :
    S.Upholds w S.Val (ofExcept (callParts form) >>= fun call =>
      ofExcept (Session.headName call.1) >>= fun name => k name call.2) := by
  have hparts : S.Upholds w (fun u call _ => List.Forall₂ (S.Val u) call.2 call.2)
      (ofExcept (callParts form)) :=
    upholds_ofExcept fun _ hcall => vals_callParts hform hcall
  refine upholds_bind hparts fun {u call} hle hargs => ?_
  have hname : S.Upholds u (fun _ _ _ => True) (ofExcept (Session.headName call.1)) :=
    upholds_ofExcept fun _ _ => trivial
  exact upholds_bind hname fun hle' _ => hk (le_trans hle hle') (vals_mono hle' hargs)

/-- What is given with an action is related to itself. -/
def KnowsGiven (S : Simulation W) (w : W) : Action → Prop
  | .text _ => True
  | .form v env => S.Val w v v ∧ S.Env w env env
  | .expansion v => S.Val w v v
  | .expansionStep v => S.Val w v v

theorem upholds_action (limits : Limits) {a : Action} (h : S.KnowsGiven w a) :
    S.Upholds w S.Val (a.program limits) := by
  cases a with
  | text request => exact upholds_textRequest request
  | form v env => exact upholds_evaluateLater h.1 h.2
  | expansion v => exact upholds_call h fun _ hargs => upholds_expand hargs
  | expansionStep v => exact upholds_call h fun _ hargs => upholds_expandOnce hargs

end Simulation

end JsonLisp
