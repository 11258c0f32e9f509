import JsonLisp.Proofs.Evaluation.Limits
import JsonLisp.Proofs.Evaluation.Visits
import JsonLisp.Proofs.Session.Tables

/-!
# The budget of a request

The number of forms under evaluation is at the end of every evaluation what it was at its beginning,
wherever the evaluation fails. So it is zero between the requests of a session, each of which may
use all the levels that the limit gives.

## Main definitions

* `KeepsDepth`: computations that leave the number of forms under evaluation as it was.
* `depth_balanced`: evaluation keeps it, and a request stays between zero and the limit.
-/

namespace JsonLisp

/-- As many forms are under evaluation after the computation as before, whatever its outcome. -/
def KeepsDepth {ε α : Type} (m : EStateM ε State α) : Prop :=
  ∀ s : State, (Outcome.state (m s)).depth = s.depth

theorem KeepsDepth.bind {ε α β : Type} {m : EStateM ε State α} {f : α → EStateM ε State β}
    (hm : KeepsDepth m) (hf : ∀ a, KeepsDepth (f a)) : KeepsDepth (m >>= f) := fun s =>
  state_bind (p := fun t => t.depth = s.depth) (hm s) fun a t _ ht => (hf a t).trans ht

/-- What keeps every single depth keeps them all. -/
theorem keepsDepth_of_rel {α : Type} {m : Run α} (h : ∀ d, (Congruence.sameAtDepth d).Rel m m) :
    KeepsDepth m := fun s => (h s.depth s rfl).2

/-! ### Evaluation -/

variable (limits : Limits)

theorem engineRel_session (d : Nat) :
    (Congruence.sameAtDepth d).EngineRel (engine limits) (engine limits) where
  eval v env s hs := ⟨rfl, (depth_evaluate limits v env s).trans hs⟩
  primitive := (Congruence.sameAtDepth d).rel_primitive

theorem keepsDepth_evaluate (v : Value) (env : Environment) : KeepsDepth (evaluate limits v env) :=
  depth_evaluate limits v env

theorem keepsDepth_evalForm (head : Value) (args : List Value) (env : Environment) :
    KeepsDepth (evalForm limits (engine limits) head args env) := by
  rw [evalForm_eq_formBy]
  refine keepsDepth_of_rel fun d => ?_
  have h := engineRel_session limits d
  exact Congruence.rel_formBy h (Congruence.parametric_evalNamed limits h) head args env

theorem keepsDepth_expandCall (name : Text) (args : List Value) :
    KeepsDepth (expandCall (engine limits) limits.expansion name args) :=
  keepsDepth_of_rel fun d => Congruence.rel_expandCall (engineRel_session limits d) _ name args

theorem keepsDepth_applyValue (f : Value) (args : List Value) :
    KeepsDepth (applyValue (engine limits) f args) :=
  keepsDepth_of_rel fun d => Congruence.rel_applyValue (engineRel_session limits d) f args

/-! ### Sessions -/

namespace Session

theorem keepsDepth_evalText (text : Text) : KeepsDepth (evalText limits text) := by
  refine .bind (keepsDepth_of_rel fun d => ?_) fun value => ?_
  · exact (Congruence.sameAtDepth d).rel_evalSequence (engineRel_session limits d).eval .root _
  · split <;> exact fun s => rfl

theorem Request.keepsDepth_run (request : Request) : KeepsDepth (request.run limits) := by
  cases request with
  | eval text => exact keepsDepth_evalText limits text
  | evaluate form => exact keepsDepth_evaluate limits form .root
  | evalPrelude text => exact .bind (keepsDepth_evalText limits text) fun _ s => rfl

theorem keepsDepth_ofRun {α : Type} {r : Run α} (h : KeepsDepth r) :
    KeepsDepth (Start.ofRun r) := by
  intro s
  rw [Start.state_ofRun]
  exact h s

def depthLaw : Start.Law where
  Holds m := KeepsDepth m
  holds_pure _ _ := rfl
  holds_throw _ _ := rfl
  holds_bind := .bind
  holds_record _ := keepsDepth_ofRun fun _ => rfl
  holds_evalTop limits form _ := keepsDepth_ofRun (keepsDepth_evaluate limits form .root)
  holds_evalText limits text := keepsDepth_ofRun (keepsDepth_evalText limits text)

/-- The state after requests have been answered, whatever the outcomes. -/
def after (requests : List Request) (s : State) : State :=
  requests.foldl (fun s request => Outcome.state (request.run limits s)) s

theorem depth_after (requests : List Request) (s : State) :
    (after limits requests s).depth = s.depth := by
  induction requests generalizing s with
  | nil => rfl
  | cons request rest ih => exact (ih _).trans (request.keepsDepth_run limits s)

end Session

open Session (Request)

/-- Evaluation of values and of forms, expansion and calls leave the number of forms under
evaluation as it was, in every state and with every outcome. In all states that an evaluation passes
through, the last one included, this number is at least that of its beginning, and at most the limit
or that of its beginning. After the start of a session, and after any requests whatever their
outcomes, it is zero. So the next request has all the levels of the limit, and stays between zero
and the limit. -/
theorem depth_balanced :
    ((∀ v env, KeepsDepth (evaluate limits v env)) ∧
      (∀ head args env, KeepsDepth (evalForm limits (engine limits) head args env)) ∧
      (∀ name args, KeepsDepth (expandCall (engine limits) limits.expansion name args)) ∧
      ∀ f args, KeepsDepth (applyValue (engine limits) f args)) ∧
    (∀ v env s,
      let r := evaluate limits v env s
      Recursion.Ends limits (Recursion.evaluate limits v env) s r ∧
      Recursion.Visits limits (Recursion.evaluate limits v env) s (Outcome.state r) ∧
      ∀ u, Recursion.Visits limits (Recursion.evaluate limits v env) s u →
        s.depth ≤ u.depth ∧ u.depth ≤ max (s.depth : Int) limits.evaluation) ∧
    ∀ surroundings files prelude expansion evaluation (requests : List Request),
      let start := Session.start surroundings files prelude expansion evaluation Session.initial
      let s := Session.after limits requests (Outcome.state start)
      s.depth = 0 ∧ levelsLeft limits s = limits.evaluation.toNat ∧
        ∀ v u, Recursion.Visits limits (Recursion.evaluate limits v .root) s u →
          0 ≤ (u.depth : Int) ∧ u.depth ≤ max 0 limits.evaluation := by
  refine ⟨⟨keepsDepth_evaluate limits, keepsDepth_evalForm limits, keepsDepth_expandCall limits,
    keepsDepth_applyValue limits⟩, fun v env s => ?evaluation, ?session⟩
  case evaluation =>
    have hend := (Recursion.follows_evaluate limits s.depth v env s rfl).1
    exact ⟨hend, hend.visits, fun u hu => Recursion.visits_evaluate hu⟩
  case session =>
    intro surroundings files prelude expansion evaluation requests start s
    have hstart : (Outcome.state start).depth = 0 := Session.depthLaw.holds_start surroundings files
      prelude expansion evaluation Session.initial
    have hs : s.depth = 0 := (Session.depth_after limits requests _).trans hstart
    refine ⟨hs, by simp [levelsLeft, hs], fun v u hu => ⟨by omega, ?_⟩⟩
    have hbound := (Recursion.visits_evaluate hu).2
    rwa [hs] at hbound

/-- With a limit of two, `["do", ["do", ["do"]]]` is refused at its innermost form, after a state in
which two forms are under evaluation. -/
theorem depth_balanced_threeForms :
    let limits : Limits := ⟨1, 2⟩
    let v : Value := .list [.word "do", .list [.word "do", .list [.word "do"]]]
    let s : State := Session.after limits [.evaluate v] .empty
    Outcome.hitsGuard (evaluate limits v .root .empty) = true ∧ s.depth = 0 ∧
      ∃ u, Recursion.Visits limits (Recursion.evaluate limits v .root) s u ∧ u.depth = 2 ∧
        s.depth ≤ u.depth ∧ u.depth ≤ max (s.depth : Int) limits.evaluation := by
  intro limits v s
  obtain ⟨⟨hkeeps, -⟩, hbound, -⟩ := depth_balanced limits
  have hs : s.depth = 0 := hkeeps v .root .empty
  have hvisits : Recursion.Visits limits (Recursion.evaluate limits v .root) s (s.atDepth 2) :=
    .effect rfl (.nested (.call (.effect rfl (.nested (.start _ _)))))
  exact ⟨by decide +kernel, hs, s.atDepth 2, hvisits, rfl, (hbound v .root s).2.2 _ hvisits⟩

end JsonLisp
