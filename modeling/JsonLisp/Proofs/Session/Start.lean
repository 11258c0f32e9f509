import JsonLisp.Proofs.Evaluation.Growth
import JsonLisp.Session

/-!
# What a start is made of

A session starts with its settings, with events that define nothing, with the two bootstrap programs
and with the text of a prelude. What holds of these, and is kept by taking one after the other,
holds of every start.

## Main definitions

* `Session.Start.Law`: a property of this kind.
* `Session.Start.Law.holds_start`: it holds of every start.
-/

namespace JsonLisp.Session

/-- A limit that is given, or else the one of the surroundings. -/
def limitFrom (setting : Except SettingError Int) : Option Int → Start Int
  | some n => pure n
  | none => Start.ofSetting setting

theorem start_eq (surroundings : Surroundings) (files : Files) (prelude : Prelude)
    (expansion evaluation : Option Int) :
    start surroundings files prelude expansion evaluation = (do
      let expansion ← limitFrom surroundings.expansionLimit expansion
      let evaluation ← limitFrom surroundings.evaluationLimit evaluation
      let limits : Limits := ⟨expansion, evaluation⟩
      reserveFrames limits
      Start.ofRun (bootstrap limits)
      runPrelude limits surroundings files prelude
      return limits) := by
  unfold start
  cases expansion <;> cases evaluation <;> rfl

namespace Start

/-- A property of the parts of a start that sequences keep. -/
structure Law where
  Holds : ∀ {α : Type}, Start α → Prop
  holds_pure : ∀ {α : Type} (a : α), Holds (pure a)
  holds_throw : ∀ {α : Type} {failure : Failure}, (∀ e, failure ≠ .evaluation e) →
    Holds (throw failure : Start α)
  holds_bind : ∀ {α β : Type} {m : Start α} {f : α → Start β}, Holds m → (∀ a, Holds (f a)) →
    Holds (m >>= f)
  holds_record : ∀ {event : State → Event},
    (∀ s, (event s).global? = none ∧ (event s).macro? = none) →
    Holds (Start.ofRun do Run.record (event (← get)))
  holds_evalTop : ∀ (limits : Limits) {form : Value},
    form = defunDefinition ∨ form = notDefinition → Holds (Start.ofRun (evalTop limits form))
  holds_evalText : ∀ (limits : Limits) (text : Text), Holds (Start.ofRun (evalText limits text))

section OfRun

variable {α β : Type} {r : Run α} {s t : State}

theorem ofRun_of_ok {a : α} (h : r s = .ok a t) : Start.ofRun r s = .ok a t := by
  change EStateM.adaptExcept Failure.evaluation r s = _
  rw [EStateM.adaptExcept, h]

theorem ofRun_of_error {e : Error} (h : r s = .error e t) :
    Start.ofRun r s = .error (.evaluation e) t := by
  change EStateM.adaptExcept Failure.evaluation r s = _
  rw [EStateM.adaptExcept, h]

theorem ofRun_eq_ok {a : α} (h : Start.ofRun r s = .ok a t) : r s = .ok a t := by
  cases hr : r s with
  | ok b u =>
    rw [ofRun_of_ok hr] at h
    cases h
    rfl
  | error e u =>
    rw [ofRun_of_error hr] at h
    cases h

theorem state_ofRun (r : Run α) (s : State) :
    Outcome.state (Start.ofRun r s) = Outcome.state (r s) := by
  cases hr : r s with
  | ok a t => rw [ofRun_of_ok hr]; rfl
  | error e t => rw [ofRun_of_error hr]; rfl

theorem ofRun_bind (m : Run α) (f : α → Run β) :
    Start.ofRun (m >>= f) = Start.ofRun m >>= fun a => Start.ofRun (f a) := by
  funext s
  cases hm : m s with
  | ok a t =>
    rw [bind_of_ok (ofRun_of_ok hm)]
    cases hf : f a t with
    | ok b u => rw [ofRun_of_ok hf, ofRun_of_ok (by rw [bind_of_ok hm, hf])]
    | error e u => rw [ofRun_of_error hf, ofRun_of_error (by rw [bind_of_ok hm, hf])]
  | error e t => rw [bind_of_error (ofRun_of_error hm), ofRun_of_error (bind_of_error hm)]

end OfRun

namespace Law

variable (L : Law)

theorem holds_event {event : Event} (hglobals : event.global? = none)
    (hmacros : event.macro? = none) : L.Holds (Start.ofRun (Run.record event)) :=
  have hevent (_ : State) : event.global? = none ∧ event.macro? = none := ⟨hglobals, hmacros⟩
  L.holds_record hevent

theorem holds_setting {α : Type} (x : Except SettingError α) : L.Holds (Start.ofSetting x) := by
  cases x with
  | ok a => exact L.holds_pure a
  | error e => exact L.holds_throw fun _ h => by cases h

theorem holds_reserveFrames (limits : Limits) : L.Holds (reserveFrames limits) := by
  have hevent : L.Holds (Start.ofRun
      (Run.record (.frameLimitRaised (framesFor limits.evaluation)))) := L.holds_event rfl rfl
  unfold reserveFrames
  dsimp only
  split
  · split
    · exact L.holds_bind (L.holds_throw fun _ h => by cases h) fun _ => hevent
    · exact hevent
  · exact L.holds_pure ()

theorem holds_bootstrap (limits : Limits) : L.Holds (Start.ofRun (bootstrap limits)) := by
  unfold bootstrap
  rw [ofRun_bind]
  refine L.holds_bind (L.holds_evalTop limits (.inl rfl)) fun _ => ?_
  rw [ofRun_bind]
  exact L.holds_bind (L.holds_evalTop limits (.inr rfl)) fun _ => L.holds_record fun _ => ⟨rfl, rfl⟩

theorem holds_preludeText (limits : Limits) (text : Text) :
    L.Holds (Start.ofRun do let _ ← evalText limits text) := by
  rw [ofRun_bind]
  exact L.holds_bind (L.holds_evalText limits text) fun _ => L.holds_pure ()

theorem holds_loadPrelude (limits : Limits) (files : Files) (path : Path) :
    L.Holds (loadPrelude limits files path) := by
  unfold loadPrelude
  split
  · rw [ofRun_bind]
    exact L.holds_bind (L.holds_event rfl rfl) fun _ => L.holds_preludeText limits _
  · exact L.holds_event rfl rfl
  · exact L.holds_throw fun _ h => by cases h

theorem holds_runPrelude (limits : Limits) (surroundings : Surroundings) (files : Files)
    (prelude : Prelude) : L.Holds (runPrelude limits surroundings files prelude) := by
  cases prelude with
  | none => exact L.holds_pure ()
  | text t => exact L.holds_preludeText limits t
  | automatic =>
    refine L.holds_bind (L.holds_setting _) fun path => ?_
    cases path with
    | some path => exact L.holds_loadPrelude limits files path
    | none => exact L.holds_pure ()

theorem holds_limitFrom (setting : Except SettingError Int) (given : Option Int) :
    L.Holds (limitFrom setting given) := by
  cases given with
  | some n => exact L.holds_pure n
  | none => exact L.holds_setting setting

theorem holds_start (surroundings : Surroundings) (files : Files) (prelude : Prelude)
    (expansion evaluation : Option Int) :
    L.Holds (start surroundings files prelude expansion evaluation) := by
  rw [start_eq]
  refine L.holds_bind (L.holds_limitFrom _ _) fun expansion => ?_
  refine L.holds_bind (L.holds_limitFrom _ _) fun evaluation => ?_
  refine L.holds_bind (L.holds_reserveFrames _) fun _ => ?_
  refine L.holds_bind (L.holds_bootstrap _) fun _ => ?_
  exact L.holds_bind (L.holds_runPrelude _ surroundings files prelude) fun _ => L.holds_pure _

end Law

end Start

end JsonLisp.Session
