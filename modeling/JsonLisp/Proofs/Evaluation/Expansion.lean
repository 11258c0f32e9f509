import JsonLisp.Proofs.Evaluation.Stepwise

/-!
# How far a macro call is expanded

The successive steps of an expansion are a chain of forms and states: each step applies the
transformer of the form before it, in the state that the steps so far have left. The guard counts
these steps. With a limit of `n`, a call is expanded to the end of its chain if that takes at most
`n` steps, and stopped after exactly `n` otherwise, when all that the `n` steps have done is kept.

## Main definitions

* `StepsTo`, `StepFails`: the chain of a call, and a step of it that fails.
* `expandCounted`: the expansion of a call with the number of transformers that it has applied.
* `expandCall_counts`: what it returns, and after how many applications.
-/

namespace JsonLisp

/-! ### The chain of a call -/

section Chain

variable (engine : Engine) (name : Text) (args : List Value) (s : State)

/-- `k` steps of the expansion of a call in the state `s` lead to this form and this state. What a
step expands is a macro call in the state that the step before has left. -/
inductive StepsTo : Nat → Value → State → Prop
  | first {form : Value} {t : State} : expandOnce engine name args s = .ok form t →
      StepsTo 1 form t
  | next {k : Nat} {form form' : Value} {name' : Text} {args' : List Value} {t u : State} :
      StepsTo k form t → macroCall? t.macros form = some (name', args') →
      expandOnce engine name' args' t = .ok form' u → StepsTo (k + 1) form' u

/-- The step with this number is the first that fails. -/
inductive StepFails : Nat → Error → State → Prop
  | first {e : Error} {t : State} : expandOnce engine name args s = .error e t → StepFails 1 e t
  | next {k : Nat} {form : Value} {name' : Text} {args' : List Value} {e : Error} {t u : State} :
      StepsTo engine name args s k form t → macroCall? t.macros form = some (name', args') →
      expandOnce engine name' args' t = .error e u → StepFails (k + 1) e u

end Chain

/-! ### Counting -/

/-- The outcome of an expansion, after so many applications of transformers. -/
structure Expansion where
  applied : Nat
  outcome : Outcome Error Value

/-- The loop after a number of applications. Each goes through `expandOnce`. -/
def countFurther (engine : Engine) (limit : Int) (applied : Nat) (form : Value) (s : State) :
    Expansion :=
  match macroCall? s.macros form with
  | none => ⟨applied, .ok form s⟩
  | some (name, args) =>
    if limit ≤ applied then ⟨applied, .error (.stillExpanding name applied) s⟩
    else match expandOnce engine name args s with
      | .ok next t => countFurther engine limit (applied + 1) next t
      | .error e t => ⟨applied + 1, .error e t⟩
termination_by (limit - applied).toNat

def expandCounted (engine : Engine) (limit : Int) (name : Text) (args : List Value) (s : State) :
    Expansion :=
  match expandOnce engine name args s with
  | .ok form t => countFurther engine limit 1 form t
  | .error e t => ⟨1, .error e t⟩

section Loop

variable {engine : Engine} {limit : Int} {name : Text} {args : List Value} {s t : State}
  {form : Value} {applied : Nat}

theorem countFurther_other (h : macroCall? t.macros form = none) :
    countFurther engine limit applied form t = ⟨applied, .ok form t⟩ := by
  rw [countFurther, h]

theorem countFurther_full {name' : Text} {args' : List Value}
    (h : macroCall? t.macros form = some (name', args')) (hfull : limit ≤ applied) :
    countFurther engine limit applied form t =
      ⟨applied, .error (.stillExpanding name' applied) t⟩ := by
  simp [countFurther, h, hfull]

theorem countFurther_step {name' : Text} {args' : List Value}
    (h : macroCall? t.macros form = some (name', args')) (hroom : applied < limit) :
    countFurther engine limit applied form t =
      match expandOnce engine name' args' t with
      | .ok next u => countFurther engine limit (applied + 1) next u
      | .error e u => ⟨applied + 1, .error e u⟩ := by
  rw [countFurther, h]
  simp [Int.not_le.2 hroom]

/-- Counting changes nothing in the outcome of the loop. -/
theorem outcome_countFurther (hpos : 1 ≤ applied) (hle : (applied : Int) ≤ max limit 1) :
    (countFurther engine limit applied form t).outcome =
      expandFurther engine (max limit 1) (limit - applied).toNat form t := by
  induction hleft : (limit - applied).toNat generalizing applied form t with
  | zero =>
    have hall : max limit 1 = applied := by omega
    cases h : macroCall? t.macros form with
    | none => rw [countFurther_other h, expandFurther_other h]
    | some call =>
      rw [countFurther_full h (by omega), hall, expandFurther, read_apply, h]
      rfl
  | succ left ih =>
    cases h : macroCall? t.macros form with
    | none => rw [countFurther_other h, expandFurther_other h]
    | some call =>
      rw [countFurther_step h (by omega), expandFurther_macroCall h]
      cases hstep : expandOnce engine call.1 call.2 t with
      | ok next u =>
        rw [bind_of_ok hstep]
        exact ih (by omega) (by omega) (by omega)
      | error e u => rw [bind_of_error hstep]

theorem outcome_expandCounted :
    (expandCounted engine limit name args s).outcome = expandCall engine limit name args s := by
  unfold expandCounted expandCall
  cases hstep : expandOnce engine name args s with
  | ok form t =>
    rw [bind_of_ok hstep]
    exact outcome_countFurther (Nat.le_refl 1) (by omega)
  | error e t => rw [bind_of_error hstep]

/-! ### The loop along the chain -/

variable {k : Nat}

/-- After `k` steps the loop is where the chain is, as long as the limit allows so many. -/
theorem StepsTo.expandCounted_eq (h : StepsTo engine name args s k form t) (hk : k ≤ limit) :
    expandCounted engine limit name args s = countFurther engine limit k form t := by
  induction h with
  | first hstep => rw [expandCounted, hstep]
  | next _ hcall hstep ih =>
    rw [ih (by omega), countFurther_step hcall (by omega), hstep]

theorem StepFails.expandCounted_eq {e : Error} (h : StepFails engine name args s k e t)
    (hk : k ≤ limit) : expandCounted engine limit name args s = ⟨k, .error e t⟩ := by
  cases h with
  | first hstep => rw [expandCounted, hstep]
  | next hsteps hcall hstep =>
    rw [hsteps.expandCounted_eq (by omega), countFurther_step hcall (by omega), hstep]

/-- How the expansion of a call can end under a limit. -/
inductive ExpandsAs (engine : Engine) (limit : Int) (name : Text) (args : List Value) (s : State) :
    Expansion → Prop
  /-- The chain has led to a form that is no macro call. -/
  | finished {k : Nat} {form : Value} {t : State} : k ≤ limit →
      StepsTo engine name args s k form t → macroCall? t.macros form = none →
      ExpandsAs engine limit name args s ⟨k, .ok form t⟩
  /-- A step has failed. -/
  | failed {k : Nat} {e : Error} {t : State} : k ≤ limit → StepFails engine name args s k e t →
      ExpandsAs engine limit name args s ⟨k, .error e t⟩
  /-- All the steps that the limit allows have led to macro calls. -/
  | stopped {k : Nat} {form : Value} {name' : Text} {args' : List Value} {t : State} :
      (k : Int) = limit → StepsTo engine name args s k form t →
      macroCall? t.macros form = some (name', args') →
      ExpandsAs engine limit name args s ⟨k, .error (.stillExpanding name' k) t⟩

/-- Wherever the loop is in the chain, it ends in one of these ways. -/
theorem StepsTo.expandsAs (h : StepsTo engine name args s k form t) (hk : k ≤ limit) :
    ExpandsAs engine limit name args s (countFurther engine limit k form t) := by
  induction hleft : (limit - k).toNat generalizing k form t with
  | zero =>
    cases hcall : macroCall? t.macros form with
    | none =>
      rw [countFurther_other hcall]
      exact .finished hk h hcall
    | some call =>
      rw [countFurther_full hcall (by omega)]
      exact .stopped (by omega) h hcall
  | succ left ih =>
    cases hcall : macroCall? t.macros form with
    | none =>
      rw [countFurther_other hcall]
      exact .finished hk h hcall
    | some call =>
      rw [countFurther_step hcall (by omega)]
      cases hstep : expandOnce engine call.1 call.2 t with
      | ok next u => exact ih (h.next hcall hstep) (by omega) (by omega)
      | error e u => exact .failed (by omega) (.next h hcall hstep)

theorem expandsAs_expandCounted (hlimit : 1 ≤ limit) :
    ExpandsAs engine limit name args s (expandCounted engine limit name args s) := by
  unfold expandCounted
  cases hstep : expandOnce engine name args s with
  | ok form t => exact (StepsTo.first hstep).expandsAs hlimit
  | error e t => exact .failed hlimit (.first hstep)

theorem ExpandsAs.eq {r : Expansion} (h : ExpandsAs engine limit name args s r) :
    expandCounted engine limit name args s = r := by
  cases h with
  | finished hk hsteps hother => rw [hsteps.expandCounted_eq hk, countFurther_other hother]
  | failed hk hfails => exact hfails.expandCounted_eq hk
  | stopped hk hsteps hcall =>
    rw [hsteps.expandCounted_eq (by omega), countFurther_full hcall (by omega)]

end Loop

/-! ### Macro calls of a session -/

/-- A special form is no macro call, whatever macros there are. -/
theorem macroCall?_special {special : Text} {f : SpecialForm}
    (h : SpecialForm.ofName? special = some f) (macros : Table) (args : List Value) :
    macroCall? macros (.list (.text special :: args)) = none := by
  simp [macroCall?, h]

/-- The guard lets through exactly as many applications of transformers as the limit says. A chain
that ends within the limit is followed to its end, after an application for each step, and the form
at its end is no macro call in the state that is left. A step that fails within the limit ends the
expansion with its error. A chain that is still at a macro call after as many steps as the limit
allows is stopped there, in the state that these steps have left. There is no other way to end, and
a form with the name of a special form at its head always ends a chain. -/
theorem expandCall_counts {limits : Limits} (hlimit : 1 ≤ limits.expansion) (name : Text)
    (args : List Value) (s : State) :
    let e := engine limits
    let counted := expandCounted e limits.expansion name args s
    counted.outcome = expandCall e limits.expansion name args s ∧
    (∀ (k : Nat) form t, k ≤ limits.expansion → StepsTo e name args s k form t →
      macroCall? t.macros form = none → counted = ⟨k, .ok form t⟩) ∧
    (∀ (k : Nat) error t, k ≤ limits.expansion → StepFails e name args s k error t →
      counted = ⟨k, .error error t⟩) ∧
    (∀ (k : Nat) form name' args' t, k = limits.expansion → StepsTo e name args s k form t →
      macroCall? t.macros form = some (name', args') →
      counted = ⟨k, .error (.stillExpanding name' k) t⟩) ∧
    ExpandsAs e limits.expansion name args s counted ∧
    ∀ special f macros parts, SpecialForm.ofName? special = some f →
      macroCall? macros (.list (.text special :: parts)) = none := by
  intro e counted
  refine ⟨outcome_expandCounted, ?finished, ?failed, ?stopped, expandsAs_expandCounted hlimit, ?_⟩
  case finished =>
    intro k form t hk hsteps hother
    exact ExpandsAs.eq (.finished hk hsteps hother)
  case failed =>
    intro k error t hk hfails
    exact ExpandsAs.eq (.failed hk hfails)
  case stopped =>
    intro k form name' args' t hk hsteps hcall
    exact ExpandsAs.eq (.stopped hk hsteps hcall)
  · intro special f macros parts h
    exact macroCall?_special h macros parts

/-- The macro `a` defines the global `x` and expands to `["b"]`, and that to the number 7. -/
theorem expandCall_counts_twoMacros :
    let v : Value := .list [.word "do",
      .list [.word "defmacro", .word "b", .list [], .int 7],
      .list [.word "defmacro", .word "a", .list [],
        .list [.word "do", .list [.word "def", .word "x", .int 1],
          .list [.word "", .list [.word "b"]]]]]
    let s := Outcome.state (evaluate ⟨1, 9⟩ v .root .empty)
    let a := Text.ofString "a"
    let b := Text.ofString "b"
    (∃ t, expandCounted (engine ⟨2, 9⟩) 2 a [] s = ⟨2, .ok (.int 7) t⟩) ∧
      ∃ t, t.globals.contains (Text.ofString "x") = true ∧
        expandCounted (engine ⟨1, 9⟩) 1 a [] s = ⟨1, .error (.stillExpanding b 1) t⟩ := by
  intro v s a b
  -- The first step is the same under both limits.
  let t (n : Int) : State := Outcome.state (expandOnce (engine ⟨n, 9⟩) a [] s)
  have hfirst (n : Int) : StepsTo (engine ⟨n, 9⟩) a [] s 1 (.list [.word "b"]) (t n) :=
    .first (Outcome.eq_ok_of_value? (by rfl))
  have hcall (n : Int) : macroCall? (t n).macros (.list [.word "b"]) = some (b, []) := by rfl
  obtain ⟨-, hfinished, -, -⟩ := @expandCall_counts ⟨2, 9⟩ (by decide) a [] s
  obtain ⟨-, -, -, hstopped, -⟩ := @expandCall_counts ⟨1, 9⟩ (by decide) a [] s
  let u : State := Outcome.state (expandOnce (engine ⟨2, 9⟩) b [] (t 2))
  have hsecond : StepsTo (engine ⟨2, 9⟩) a [] s 2 (.int 7) u :=
    .next (hfirst 2) (hcall 2) (Outcome.eq_ok_of_value? (by rfl))
  exact ⟨⟨u, hfinished 2 (.int 7) u (by decide) hsecond rfl⟩,
    ⟨t 1, by rfl, hstopped 1 _ b [] (t 1) rfl (hfirst 1) (hcall 1)⟩⟩

end JsonLisp
