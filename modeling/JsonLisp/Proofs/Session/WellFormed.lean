import JsonLisp.Proofs.Session.Start
import JsonLisp.Proofs.Simulation.Requests
import JsonLisp.Proofs.Simulation.WellFormed

/-!
# Well-formed sessions

A session starts with well-formed tables. From then on all values that requests of program texts
return, and all that they leave in the tables, are well formed.

## Main definitions

* `Session.TextRequest`, and `Session.Served` for the states that such requests lead to.
* `served_wellFormed`: these states, and what requests return there.
-/

namespace JsonLisp

open Simulation (wellFormed)

/-! ### Start -/

namespace Session

/-- The computation leaves well-formed states well formed, and fails in evaluation with errors that
can occur there alone. -/
def Start.Keeps {α : Type} (m : Start α) : Prop :=
  ∀ s : State, s.WellFormed → (Outcome.state (m s)).WellFormed ∧
    ∀ e t, m s = .error (.evaluation e) t → e.Ordinary

namespace Start.Keeps

variable {α β : Type}

protected theorem pure (a : α) : Keeps (pure a) :=
  fun _ hs => ⟨hs, fun _ _ h => by cases h⟩

protected theorem throw {failure : Failure} (h : ∀ e, failure ≠ .evaluation e) :
    Keeps (throw failure : Start α) := by
  refine fun s hs => ⟨hs, fun e t hfail => ?_⟩
  cases hfail
  exact absurd rfl (h e)

protected theorem bind {m : Start α} {f : α → Start β} (hm : Keeps m) (hf : ∀ a, Keeps (f a)) :
    Keeps (m >>= f) := by
  intro s hs
  obtain ⟨hstate, herror⟩ := hm s hs
  cases hr : m s with
  | ok a t =>
    rw [hr] at hstate
    rw [bind_of_ok hr]
    exact hf a t hstate
  | error failure t =>
    rw [hr] at hstate herror
    rw [bind_of_error hr]
    refine ⟨hstate, fun e u h => ?_⟩
    cases h
    exact herror e t rfl

theorem ofRun {R : Unit → α → α → Prop} {r : Run α} (h : wellFormed.Runs () R r r) :
    Keeps (Start.ofRun r) := by
  intro s hs
  have hrun := h ⟨rfl, hs⟩
  cases hr : r s with
  | ok a t =>
    rw [Start.ofRun_of_ok hr]
    obtain ⟨_, -, hst⟩ := hrun.states
    rw [hr] at hst
    exact ⟨hst.2, fun _ _ h => by cases h⟩
  | error e t =>
    rw [Start.ofRun_of_error hr]
    rw [hr] at hrun
    obtain ⟨_, -, hst⟩ := hrun.states
    refine ⟨hst.2, fun e t h => ?_⟩
    cases h
    exact hrun.possible

end Start.Keeps

open Start (Keeps)

/-- The bootstrap programs are made of names, lists and booleans. -/
theorem wellFormed_bootstrapForms :
    defunDefinition.WellFormed ∧ notDefinition.WellFormed := by
  constructor <;> simp [defunDefinition, notDefinition, template, Value.word]

def keepsLaw : Start.Law where
  Holds := Keeps
  holds_pure := .pure
  holds_throw := .throw
  holds_bind := .bind
  holds_record h := .ofRun (R := fun _ => Eq) <| by
    rintro s t ⟨rfl, hs⟩
    exact .ok le_rfl rfl ⟨rfl, ⟨hs.globals, hs.macros⟩⟩
  holds_evalTop limits form h := by
    have hform : form.WellFormed := by
      obtain rfl | rfl := h
      · exact wellFormed_bootstrapForms.1
      · exact wellFormed_bootstrapForms.2
    exact .ofRun (wellFormed.runs_evaluate limits ⟨rfl, hform⟩ (wellFormed.env_root ()))
  holds_evalText limits text := .ofRun (wellFormed.runs_evalText limits text)

theorem keeps_start (surroundings : Surroundings) (files : Files) (prelude : Prelude)
    (expansion evaluation : Option Int) :
    Keeps (start surroundings files prelude expansion evaluation) :=
  keepsLaw.holds_start surroundings files prelude expansion evaluation

theorem wellFormed_initial : initial.WellFormed where
  globals := by
    refine List.forall_mem_map.2 fun name hname => ?_
    exact (Value.everywhere_atom rfl).2 hname
  macros := List.forall_mem_singleton.2 (.inl ⟨rfl, rfl⟩)

/-! ### Requests -/

/-- Requests of program texts. -/
inductive TextRequest where
  | eval (text : Text)
  | evaluate (text : Text)
  | evalPrelude (text : Text)

def TextRequest.run (limits : Limits) : TextRequest → Run Value
  | .eval text => evalText limits text
  | .evaluate text => evalOne limits text
  | .evalPrelude text => do
    let _ ← evalText limits text
    return .null

theorem runs_textRequest {W : Type} [Preorder W] (S : Simulation W) {w : W} (limits : Limits)
    (request : TextRequest) : S.Runs w S.Val (request.run limits) (request.run limits) := by
  cases request with
  | eval text => exact S.runs_evalText limits text
  | evaluate text => exact S.runs_evalOne limits text
  | evalPrelude text =>
    exact Simulation.runs_bind (S.runs_evalText limits text) fun _ _ =>
      Simulation.runs_pure (S.val_null _)

/-- The states of a session that has answered requests of texts, whatever their outcomes. -/
inductive Served (limits : Limits) : State → Prop
  | start {surroundings : Surroundings} {files : Files} {prelude : Prelude}
      {expansion evaluation : Option Int} {s : State} :
      start surroundings files prelude expansion evaluation initial = .ok limits s →
      Served limits s
  | request {s : State} (h : Served limits s) (request : TextRequest) :
      Served limits (Outcome.state (request.run limits s))

theorem Served.wellFormed {limits : Limits} {s : State} (h : Served limits s) :
    s.WellFormed := by
  induction h with
  | @start surroundings files prelude expansion evaluation s hstart =>
    have hs := (keeps_start surroundings files prelude expansion evaluation initial
      wellFormed_initial).1
    rwa [hstart] at hs
  | request _ request ih =>
    have hrun := runs_textRequest Simulation.wellFormed (w := ()) limits request ⟨rfl, ih⟩
    obtain ⟨_, _, _, hst⟩ := hrun.states
    exact hst

end Session

open Session (Served TextRequest)

/-- An error that only a value which is not well formed can cause: the call of a primitive that does
not exist, of a closure without parameters, or of a macro that is not there. -/
def ErrorKind.NeedsIllFormed (k : ErrorKind) : Prop :=
  k = .undefinedBuiltin ∨ k = .missingPart ∨ k = .unknownKey

theorem Error.Ordinary.not_needsIllFormed {e : Error} (h : e.Ordinary) :
    ¬ e.kind.NeedsIllFormed := by
  intro hk
  obtain h | h := h
  · obtain hk | hk | hk := hk <;> rw [hk] at h <;> cases h
  · obtain hk | hk | hk := hk <;> rw [hk] at h <;> cases h

/-- In every state that requests of texts lead to, and also when a session fails to start, the tables
are well formed. So is what a request returns there, and no run ends in an error that takes a value
which is not. -/
theorem served_wellFormed (limits : Limits) :
    (∀ s, Served limits s → s.WellFormed ∧ ∀ request : TextRequest,
      (∀ v t, request.run limits s = .ok v t → v.WellFormed) ∧
      ∀ e t, request.run limits s = .error e t → ¬ e.kind.NeedsIllFormed) ∧
    ∀ surroundings files prelude expansion evaluation,
      let r := Session.start surroundings files prelude expansion evaluation Session.initial
      (Outcome.state r).WellFormed ∧
      ∀ e t, r = .error (.evaluation e) t → ¬ e.kind.NeedsIllFormed := by
  refine ⟨fun s h => ⟨h.wellFormed, fun request => ?_⟩, ?_⟩
  · have hrun := Session.runs_textRequest wellFormed (w := ()) limits request ⟨rfl, h.wellFormed⟩
    constructor
    · intro v t hr
      rw [hr] at hrun
      cases hrun with
      | ok _ hv _ => exact hv.2
    · intro e t hr
      rw [hr] at hrun
      exact hrun.possible.not_needsIllFormed
  · intro surroundings files prelude expansion evaluation r
    obtain ⟨hstate, herror⟩ := Session.keeps_start surroundings files prelude expansion evaluation
      Session.initial Session.wellFormed_initial
    exact ⟨hstate, fun e t hr => (herror e t hr).not_needsIllFormed⟩

/-- A session without a prelude, after a request that makes a closure and one that fails. -/
theorem served_wellFormed_twoRequests :
    let start := Session.start ⟨[], fun _ => none⟩ (fun path => .error (.refused .missing path))
      .none (some 1) (some 9) Session.initial
    let s := Outcome.state start
    let made := (TextRequest.eval (Text.ofString "[\"fn\",[\"x\"],1.5]")).run ⟨1, 9⟩ s
    let t := Outcome.state made
    let failed := (TextRequest.evaluate (Text.ofString "[\"def\",\"not\",1]")).run ⟨1, 9⟩ t
    Served ⟨1, 9⟩ s ∧ Served ⟨1, 9⟩ t ∧ t.WellFormed ∧
      (∃ f, made = .ok f t ∧ f.WellFormed) ∧
      ∃ e u, failed = .error e u ∧ ¬ e.kind.NeedsIllFormed := by
  intro start s made t failed
  have hstart : Outcome.value? start = some ⟨1, 9⟩ := by decide +kernel
  have hmade : (Outcome.value? made).isSome = true := by decide +kernel
  have hfailed : (Outcome.value? failed).isNone = true := by decide +kernel
  have hs : Served ⟨1, 9⟩ s := .start (Outcome.eq_ok_of_value? hstart)
  have ht : Served ⟨1, 9⟩ t := hs.request _
  obtain ⟨f, hf⟩ := Option.isSome_iff_exists.1 hmade
  have hf := Outcome.eq_ok_of_value? hf
  obtain ⟨hall, -⟩ := served_wellFormed ⟨1, 9⟩
  refine ⟨hs, ht, (hall t ht).1, ⟨f, hf, ((hall s hs).2 _).1 f t hf⟩, ?_⟩
  cases hr : failed with
  | ok v u =>
    rw [hr] at hfailed
    cases hfailed
  | error e u => exact ⟨e, u, rfl, ((hall t ht).2 _).2 e u hr⟩

end JsonLisp
