import JsonLisp.Proofs.Evaluation.Growth
import JsonLisp.Proofs.Evaluation.Termination

/-!
# The states of a run

A run passes through the states before and after its computations, also inside of its calls and of
the forms that it counts. In all of them at least as many forms are under evaluation as at its
beginning, and at most as many as the limit allows, unless the run has begun with more. The state
grows from each of them to the next.

## Main definitions

* `Recursion.Visits`: the states that a run of a program passes through.
* `Recursion.visits_evaluate`: the number of forms under evaluation in these states.
* `Recursion.grows_of_visits`: they lie between the first state and the last.
-/

namespace JsonLisp

namespace Recursion

variable {α β : Type} {limits : Limits} {d : Nat} {s t u : State}

/-- A run of the program from the first state passes through the second. The run need not end. -/
inductive Visits (limits : Limits) : {α : Type} → Program α → State → State → Prop
  | start {α : Type} (p : Program α) (s : State) : Visits limits p s s
  | effect {α β : Type} {m : Run β} {k : β → Program α} {s t u : State} {b : β}
      (hm : m s = .ok b t) (hk : Visits limits (k b) t u) : Visits limits (.effect m k) s u
  | effect_error {α β : Type} {m : Run β} {k : β → Program α} {s t : State} {e : Error}
      (hm : m s = .error e t) : Visits limits (.effect m k) s t
  | call {α : Type} {c : Call} {k : Value → Program α} {s u : State}
      (hc : Visits limits (body limits c) s u) : Visits limits (.call c k) s u
  | afterCall {α : Type} {c : Call} {k : Value → Program α} {s t u : State} {v : Value}
      (hc : Ends limits (body limits c) s (.ok v t)) (hk : Visits limits (k v) t u) :
      Visits limits (.call c k) s u
  | nested {α : Type} {p : Program Value} {k : Value → Program α} {s u : State}
      (hp : Visits limits p (s.atDepth (s.depth + 1)) u) : Visits limits (.nested p k) s u
  | afterNested {α : Type} {p : Program Value} {k : Value → Program α} {s t u : State} {v : Value}
      (hp : Ends limits p (s.atDepth (s.depth + 1)) (.ok v t))
      (hk : Visits limits (k v) (t.atDepth (t.depth - 1)) u) : Visits limits (.nested p k) s u
  | nested_error {α : Type} {p : Program Value} {k : Value → Program α} {s t : State} {e : Error}
      (hp : Ends limits p (s.atDepth (s.depth + 1)) (.error e t)) :
      Visits limits (.nested p k) s (t.atDepth (t.depth - 1))

/-- A run that ends passes through the state that it leaves. -/
theorem Ends.visits {p : Program α} {r : Outcome Error α} (h : Ends limits p s r) :
    Visits limits p s (Outcome.state r) := by
  induction h with
  | pure a s => exact .start _ s
  | effect hm _ ih => exact .effect hm ih
  | effect_error hm => exact .effect_error hm
  | call hc _ _ ih => exact .afterCall hc ih
  | call_error _ ih => exact .call ih
  | nested hp _ _ ih => exact .afterNested hp ih
  | nested_error hp _ => exact .nested_error hp

/-- A run of two programs in sequence is in the first, or in the second after the first. -/
theorem Visits.of_bind {p : Program α} {f : α → Program β} (h : Visits limits (p >>= f) s u) :
    Visits limits p s u ∨ ∃ a t, Ends limits p s (.ok a t) ∧ Visits limits (f a) t u := by
  induction p generalizing s with
  | pure a => exact .inr ⟨a, s, .pure a s, h⟩
  | effect m k ih =>
    cases h with
    | start => exact .inl (.start _ _)
    | effect hm hk =>
      obtain hfirst | ⟨a, t, hend, hsecond⟩ := ih _ hk
      · exact .inl (.effect hm hfirst)
      · exact .inr ⟨a, t, .effect hm hend, hsecond⟩
    | effect_error hm => exact .inl (.effect_error hm)
  | call c k ih =>
    cases h with
    | start => exact .inl (.start _ _)
    | call hc => exact .inl (.call hc)
    | afterCall hc hk =>
      obtain hfirst | ⟨a, t, hend, hsecond⟩ := ih _ hk
      · exact .inl (.afterCall hc hfirst)
      · exact .inr ⟨a, t, .call hc hend, hsecond⟩
  | nested q k _ ih =>
    cases h with
    | start => exact .inl (.start _ _)
    | nested hp => exact .inl (.nested hp)
    | afterNested hp hk =>
      obtain hfirst | ⟨a, t, hend, hsecond⟩ := ih _ hk
      · exact .inl (.afterNested hp hfirst)
      · exact .inr ⟨a, t, .nested hp hend, hsecond⟩
    | nested_error hp => exact .inl (.nested_error hp)

theorem Visits.of_pure {a : α} (h : Visits limits (.pure a) s u) : u = s := by
  cases h
  rfl

/-! ### The number of forms under evaluation -/

/-- From a state with `d` forms under evaluation a run never has fewer of them, and never more than
the limit, unless that is less than `d`. -/
def Bounded (limits : Limits) (d : Nat) (p : Program α) : Prop :=
  ∀ s u : State, s.depth = d → Visits limits p s u →
    d ≤ u.depth ∧ u.depth ≤ max (d : Int) limits.evaluation

theorem Follows.eq_of_ends {p : Program α} {m : Run α} {r : Outcome Error α}
    (h : Follows limits d p m) (hs : s.depth = d) (hr : Ends limits p s r) : m s = r :=
  (h s hs).1.deterministic hr

theorem Follows.depth_eq {p : Program α} {m : Run α} {r : Outcome Error α}
    (h : Follows limits d p m) (hs : s.depth = d) (hr : Ends limits p s r) :
    (Outcome.state r).depth = d := by
  rw [← h.eq_of_ends hs hr]
  exact (h s hs).2

/-- The law of the programs that end at the depth at which they have begun and are bounded. -/
def boundLaw (limits : Limits) : Law limits where
  Holds d p m := Follows limits d p m ∧ Bounded limits d p
  holds_pure d a := by
    refine ⟨.pure a, fun s u hs h => ?_⟩
    rw [h.of_pure]
    omega
  holds_ofRun {α d m} hm := by
    have hkeeps := hm (Congruence.sameAtDepth d)
    refine ⟨.ofRun hkeeps, fun s u hs h => ?_⟩
    have hdepth := (hkeeps s hs).2
    cases h with
    | start => omega
    | effect hr hk =>
      rw [hr, Outcome.state_ok] at hdepth
      rw [hk.of_pure]
      omega
    | effect_error hr =>
      rw [hr, Outcome.state_error] at hdepth
      omega
  holds_fail_bind d e k := by
    refine ⟨.fail_bind e k, fun s u hs h => ?_⟩
    cases h with
    | start => omega
    | effect hr _ => cases hr
    | effect_error hr =>
      cases hr
      omega
  holds_bind hp hf := by
    refine ⟨hp.1.bind fun a => (hf a).1, fun s u hs h => ?_⟩
    obtain hfirst | ⟨a, t, hend, hsecond⟩ := h.of_bind
    · exact hp.2 s u hs hfirst
    · exact (hf a).2 t u (hp.1.depth_eq hs hend) hsecond
  holds_read hf := by
    refine ⟨.read fun s hs => (hf s hs).1, fun s u hs h => ?_⟩
    cases h with
    | start => omega
    | effect hr hk =>
      cases hr
      exact (hf s hs).2 s u hs hk
    | effect_error hr => cases hr
  holds_call hc := by
    refine ⟨.call hc.1, fun s u hs h => ?_⟩
    cases h with
    | start => omega
    | call h => exact hc.2 s u hs h
    | afterCall hend hk =>
      have hdepth := hc.1.depth_eq hs hend
      rw [Outcome.state_ok] at hdepth
      rw [hk.of_pure]
      omega
  holds_nested {d p m} hroom hp := by
    refine ⟨.nested hp.1, fun s u hs h => ?_⟩
    have hinside : (s.atDepth (s.depth + 1)).depth = d + 1 := by rw [State.depth_atDepth, hs]
    cases h with
    | start => omega
    | nested h =>
      have hbound := hp.2 _ u hinside h
      omega
    | afterNested hend hk =>
      have hdepth := hp.1.depth_eq hinside hend
      rw [Outcome.state_ok] at hdepth
      rw [hk.of_pure, State.depth_atDepth]
      omega
    | nested_error hend =>
      have hdepth := hp.1.depth_eq hinside hend
      rw [Outcome.state_error] at hdepth
      rw [State.depth_atDepth]
      omega

theorem visits_evaluate {v : Value} {env : Environment}
    (h : Visits limits (evaluate limits v env) s u) :
    s.depth ≤ u.depth ∧ u.depth ≤ max (s.depth : Int) limits.evaluation :=
  ((boundLaw limits).holds_evalLevels rfl v env).2 s u rfl h

/-! ### Growth -/

/-- What a run from a state with `d` forms under evaluation passes through has grown from that
state, and the state at the end has grown from it. -/
def Between (limits : Limits) (d : Nat) (p : Program α) (m : Run α) : Prop :=
  ∀ s u : State, s.depth = d → Visits limits p s u → s.Grows u ∧ u.Grows (Outcome.state (m s))

theorem Between.grows {p : Program α} {m : Run α} (h : Between limits d p m) (hs : s.depth = d) :
    s.Grows (Outcome.state (m s)) :=
  (h s s hs (.start p s)).2

theorem between_bind {p : Program α} {m : Run α} {f : α → Program β} {g : α → Run β}
    (hfollows : Follows limits d p m) (hp : Between limits d p m)
    (hf : ∀ a, Between limits d (f a) (g a)) : Between limits d (p >>= f) (m >>= g) := by
  intro s u hs h
  have hdepth := (hfollows s hs).2
  obtain hfirst | ⟨a, t, hend, hsecond⟩ := h.of_bind
  · obtain ⟨hbefore, hafter⟩ := hp s u hs hfirst
    refine ⟨hbefore, hafter.trans ?_⟩
    cases hm : m s with
    | ok a t =>
      rw [hm] at hdepth
      rw [bind_of_ok hm]
      exact (hf a).grows hdepth
    | error e t =>
      rw [bind_of_error hm]
      exact .refl t
  · have hm := hfollows.eq_of_ends hs hend
    have hgrows := hp.grows hs
    rw [hm] at hdepth hgrows
    rw [bind_of_ok hm]
    obtain ⟨hbefore, hafter⟩ := (hf a) t u hdepth hsecond
    exact ⟨hgrows.trans hbefore, hafter⟩

theorem between_nested {p : Program Value} {m : Run Value} (hfollows : Follows limits (d + 1) p m)
    (hp : Between limits (d + 1) p m) : Between limits d (.nested p .pure) (Run.nested m) := by
  intro s u hs h
  have hinside : (s.atDepth (s.depth + 1)).depth = d + 1 := by rw [State.depth_atDepth, hs]
  have hcounted := s.grows_atDepth (s.depth + 1)
  have hgrows := hcounted.trans (hp.grows hinside)
  rw [nested_eq_mapState, Outcome.state_mapState]
  cases h with
  | start => exact ⟨.refl s, hgrows.trans (State.grows_atDepth _ _)⟩
  | nested h =>
    obtain ⟨hbefore, hafter⟩ := hp _ u hinside h
    exact ⟨hcounted.trans hbefore, hafter.trans (State.grows_atDepth _ _)⟩
  | afterNested hend hk =>
    rw [hfollows.eq_of_ends hinside hend, Outcome.state_ok] at hgrows ⊢
    rw [hk.of_pure]
    exact ⟨hgrows.trans (State.grows_atDepth _ _), .refl _⟩
  | nested_error hend =>
    rw [hfollows.eq_of_ends hinside hend, Outcome.state_error] at hgrows ⊢
    exact ⟨hgrows.trans (State.grows_atDepth _ _), .refl _⟩

/-- The law of the programs that end at the depth at which they have begun and only add to the
state on their way. -/
def growthLaw (limits : Limits) : Law limits where
  Holds d p m := Follows limits d p m ∧ Between limits d p m
  holds_pure d a := by
    refine ⟨.pure a, fun s u hs h => ?_⟩
    rw [h.of_pure]
    exact ⟨.refl s, .refl s⟩
  holds_ofRun {α d m} hm := by
    refine ⟨.ofRun (hm (Congruence.sameAtDepth d)), fun s u hs h => ?_⟩
    have hgrows : OnlyGrows m := hm Congruence.growth
    have hs := hgrows s
    cases h with
    | start => exact ⟨.refl s, hs⟩
    | effect hr hk =>
      rw [hr] at hs ⊢
      rw [hk.of_pure]
      exact ⟨hs, .refl _⟩
    | effect_error hr =>
      rw [hr] at hs ⊢
      exact ⟨hs, .refl _⟩
  holds_fail_bind d e k := by
    refine ⟨.fail_bind e k, fun s u hs h => ?_⟩
    cases h with
    | start => exact ⟨.refl s, .refl s⟩
    | effect hr _ => cases hr
    | effect_error hr =>
      cases hr
      exact ⟨.refl s, .refl s⟩
  holds_bind hp hf := ⟨hp.1.bind fun a => (hf a).1, between_bind hp.1 hp.2 fun a => (hf a).2⟩
  holds_read hf := by
    refine ⟨.read fun s hs => (hf s hs).1, fun s u hs h => ?_⟩
    cases h with
    | start => exact ⟨.refl s, (hf s hs).2.grows hs⟩
    | effect hr hk =>
      cases hr
      exact (hf s hs).2 s u hs hk
    | effect_error hr => cases hr
  holds_call hc := by
    refine ⟨.call hc.1, fun s u hs h => ?_⟩
    have hgrows := hc.2.grows hs
    cases h with
    | start => exact ⟨.refl s, hgrows⟩
    | call h => exact hc.2 s u hs h
    | afterCall hend hk =>
      rw [hc.1.eq_of_ends hs hend] at hgrows ⊢
      rw [hk.of_pure]
      exact ⟨hgrows, .refl _⟩
  holds_nested _ hp := ⟨.nested hp.1, between_nested hp.1 hp.2⟩

theorem grows_of_visits {v : Value} {env : Environment}
    (h : Visits limits (evaluate limits v env) s u) :
    s.Grows u ∧ u.Grows (Outcome.state (JsonLisp.evaluate limits v env s)) :=
  ((growthLaw limits).holds_evalLevels rfl v env).2 s u rfl h

end Recursion

end JsonLisp
