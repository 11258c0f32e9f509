import JsonLisp.Proofs.Json.Extension
import JsonLisp.Proofs.Simulation.Requests

/-!
# Consecutive texts

A program text may be cut at any white space between its forms: the first part and then the second
do what the whole text does. So do a prelude and a program behind it.

## Main definitions

* `Error.Moved`: the same error, but for the place of a flaw.
* `Session.EndsAs`: a text ends as two others one after the other.
* `evalText_consecutive`: the law for texts and for preludes.
-/

namespace JsonLisp

/-- The same error, except that a flaw of a text may be reported at another place. -/
inductive Error.Moved : Error → Error → Prop
  | same (e : Error) : Moved e e
  | flaw (reason : Json.Flaw) (place place' : Json.Place) :
    Moved (.malformed (.flaw reason place)) (.malformed (.flaw reason place'))

theorem Error.moved_locate (t t' : Text) (fault : Json.Fault Nat) :
    Moved (.malformed (Json.locate t fault)) (.malformed (Json.locate t' fault)) := by
  cases fault with
  | flaw reason left => exact .flaw reason _ _
  | _ => exact .same _

/-! ### Sequences of forms -/

theorem evalSequence_cons (ev : Eval) (env : Environment) (form : Value) {rest : List Value}
    (h : rest ≠ []) :
    evalSequence ev env (form :: rest) = (do
      let _ ← ev form env
      evalSequence ev env rest) := by
  cases rest with
  | nil => exact absurd rfl h
  | cons next rest => rfl

/-- The value of a sequence is that of its last form, if it has any. -/
theorem evalSequence_append (ev : Eval) (env : Environment) (forms rest : List Value) :
    evalSequence ev env (forms ++ rest) = (do
      let first ← evalSequence ev env forms
      let last ← evalSequence ev env rest
      return if rest.isEmpty then first else last) := by
  cases rest with
  | nil =>
    rw [List.append_nil]
    exact (bind_pure _).symm
  | cons next rest =>
    change _ = evalSequence ev env forms >>= fun _ => evalSequence ev env (next :: rest) >>= pure
    rw [bind_pure]
    induction forms with
    | nil => rfl
    | cons form forms ih =>
      rw [List.cons_append, evalSequence_cons ev env form (by simp), ih]
      cases forms with
      | nil => rfl
      | cons other forms => rw [evalSequence_cons ev env form (List.cons_ne_nil _ _), bind_assoc]

namespace Session

/-! ### Texts -/

/-- From the state `s` the text `whole` ends as `first` and then `second` do: with the error of
`first`, or else with the value of `second` if it holds any, in the state that the two texts lead
to. Of the error of `second` only the place of a flaw may differ. All forms before a flaw are
evaluated. -/
structure EndsAs (limits : Limits) (first second whole : Text) (s : State) : Prop where
  first_fails : ∀ e t, evalText limits first s = .error e t → evalText limits whole s = .error e t
  second_fails : ∀ v t e u, evalText limits first s = .ok v t →
    evalText limits second t = .error e u →
    ∃ e', Error.Moved e e' ∧ evalText limits whole s = .error e' u
  succeeds : ∀ v t v' u, evalText limits first s = .ok v t → evalText limits second t = .ok v' u →
    evalText limits whole s = .ok (if (Json.decodeAll second).1.isEmpty then v else v') u
  evaluated : Outcome.state (evalText limits whole s) =
    Outcome.state (evalSequence (evaluate limits) .root
      (((Json.decodeAll first).1 ++ (Json.decodeAll second).1).map Value.ofJson) s)

/-- The forms of a text in order. -/
def evalForms (limits : Limits) (text : Text) : Run Value :=
  evalSequence (evaluate limits) .root ((Json.decodeAll text).1.map Value.ofJson)

theorem evalText_of_forms_error {limits : Limits} {text : Text} {s t : State} {e : Error}
    (h : evalForms limits text s = .error e t) : evalText limits text s = .error e t := by
  rw [Simulation.evalText_eq, Value.ofJsonItems_eq_map]
  exact bind_of_error h

/-- The fault of a text shows after its forms. -/
theorem evalText_of_forms_ok {limits : Limits} {text : Text} {s t : State} {v : Value}
    (h : evalForms limits text s = .ok v t) :
    evalText limits text s =
      match (Json.decodeAll text).2 with
      | some fault => .error (.malformed fault) t
      | none => .ok v t := by
  rw [Simulation.evalText_eq, Value.ofJsonItems_eq_map]
  refine (bind_of_ok h).trans ?_
  cases (Json.decodeAll text).2 <;> rfl

theorem state_evalText (limits : Limits) (text : Text) (s : State) :
    Outcome.state (evalText limits text s) = Outcome.state (evalForms limits text s) := by
  cases h : evalForms limits text s with
  | error e t => rw [evalText_of_forms_error h]
  | ok v t =>
    rw [evalText_of_forms_ok h]
    cases (Json.decodeAll text).2 <;> rfl

theorem evalText_of_readable {limits : Limits} {text : Text} (h : (Json.decodeAll text).2 = none)
    (s : State) : evalText limits text s = evalForms limits text s := by
  cases hforms : evalForms limits text s with
  | error e t => rw [evalText_of_forms_error hforms]
  | ok v t => rw [evalText_of_forms_ok hforms, h]

/-- The forms of a text whose documents are those of two others. -/
theorem evalForms_append {first second whole : Text}
    (h : (Json.decodeAll whole).1 = (Json.decodeAll first).1 ++ (Json.decodeAll second).1)
    (limits : Limits) :
    evalForms limits whole = (do
      let v ← evalForms limits first
      let v' ← evalForms limits second
      return if (Json.decodeAll second).1.isEmpty then v else v') := by
  rw [evalForms, h, List.map_append, evalSequence_append, List.isEmpty_map]
  rfl

theorem endsAs_append {first blank : Text} (hfirst : (Json.decodeAll first).2 = none)
    (hne : blank ≠ []) (hblank : ∀ c ∈ blank, Text.isBlank c = true) (second : Text)
    (limits : Limits) (s : State) : EndsAs limits first second (first ++ blank ++ second) s := by
  obtain ⟨hforms, fault, hsecond, hwhole⟩ := Json.decodeAll_append hfirst hne hblank second
  have happend := evalForms_append hforms limits
  have hvalue {v v' : Value} {t u : State} (h : evalForms limits first s = .ok v t)
      (hlast : evalForms limits second t = .ok v' u) :
      evalForms limits (first ++ blank ++ second) s =
        .ok (if (Json.decodeAll second).1.isEmpty then v else v') u := by
    rw [happend, bind_of_ok h, bind_of_ok hlast]
    rfl
  refine ⟨fun e t h => ?_, fun v t e u h hfail => ?_, fun v t v' u h hok => ?_, ?_⟩
  · rw [evalText_of_readable hfirst] at h
    exact evalText_of_forms_error (by rw [happend, bind_of_error h])
  · rw [evalText_of_readable hfirst] at h
    cases hlast : evalForms limits second t with
    | error e' t' =>
      rw [evalText_of_forms_error hlast] at hfail
      cases hfail
      refine ⟨e, .same e, evalText_of_forms_error ?_⟩
      rw [happend, bind_of_ok h, bind_of_error hlast]
    | ok v' t' =>
      rw [evalText_of_forms_ok hlast, hsecond] at hfail
      rw [evalText_of_forms_ok (hvalue h hlast), hwhole]
      cases fault with
      | none => cases hfail
      | some fault =>
        cases hfail
        exact ⟨_, Error.moved_locate _ _ fault, rfl⟩
  · rw [evalText_of_readable hfirst] at h
    cases hlast : evalForms limits second t with
    | error e' t' =>
      rw [evalText_of_forms_error hlast] at hok
      cases hok
    | ok v' t' =>
      rw [evalText_of_forms_ok hlast, hsecond] at hok
      rw [evalText_of_forms_ok (hvalue h hlast), hwhole]
      cases fault with
      | none =>
        cases hok
        rfl
      | some fault => cases hok
  · rw [state_evalText, evalForms, hforms]

/-- A text that succeeds has been read completely. -/
theorem fault_of_evalText_ok {limits : Limits} {text : Text} {s t : State} {v : Value}
    (h : evalText limits text s = .ok v t) : (Json.decodeAll text).2 = none := by
  cases hforms : evalForms limits text s with
  | error e u =>
    rw [evalText_of_forms_error hforms] at h
    cases h
  | ok v' u =>
    rw [evalText_of_forms_ok hforms] at h
    cases hfault : (Json.decodeAll text).2 with
    | none => rfl
    | some fault =>
      rw [hfault] at h
      cases h

/-! ### Preludes -/

/-- Where the first start succeeds, so does the second, and the text leads from its state to the
one of the first. -/
def Start.ThenText (text : Text) (m m' : Start Limits) : Prop :=
  ∀ s limits t, m s = .ok limits t →
    ∃ u v, m' s = .ok limits u ∧ evalText limits text u = .ok v t

theorem Start.ThenText.bind {α : Type} {text : Text} (m : Start α) {f f' : α → Start Limits}
    (h : ∀ a, ThenText text (f a) (f' a)) : ThenText text (m >>= f) (m >>= f') := by
  intro s limits t hstart
  obtain ⟨a, u, hm, hf⟩ := bind_eq_ok hstart
  obtain ⟨u', v, hf', htext⟩ := h a u limits t hf
  exact ⟨u', v, by rw [bind_of_ok hm, hf'], htext⟩

/-- A prelude is a first text that is evaluated when the session starts. -/
theorem start_thenText (surroundings : Surroundings) (files : Files) (text : Text)
    (expansion evaluation : Option Int) :
    Start.ThenText text (start surroundings files (.text text) expansion evaluation)
      (start surroundings files .none expansion evaluation) := by
  have hprelude (limits : Limits) : Start.ThenText text
      (do runPrelude limits surroundings files (.text text); return limits)
      (do runPrelude limits surroundings files .none; return limits) := by
    intro s limits' t h
    obtain ⟨⟨⟩, u, hrun, h⟩ := bind_eq_ok h
    cases h
    obtain ⟨v, u, htext, h⟩ := bind_eq_ok (Start.ofRun_eq_ok hrun)
    cases h
    exact ⟨s, v, rfl, htext⟩
  rw [start_eq, start_eq]
  exact .bind _ fun _ => .bind _ fun _ => .bind _ fun _ => .bind _ fun _ => hprelude _

end Session

open Session (EndsAs evalText start initial)

/-- A program text may be cut at white space behind any of its forms: in every state the whole ends
as its first part and then the second, whether the second can be read or not. A text after a prelude
ends as the two of them do in a session without a prelude. -/
theorem evalText_consecutive (limits : Limits) (second : Text) :
    (∀ first blank : Text, (Json.decodeAll first).2 = none → blank ≠ [] →
      (∀ c ∈ blank, Text.isBlank c = true) →
      ∀ s, EndsAs limits first second (first ++ blank ++ second) s) ∧
    ∀ surroundings files prelude expansion evaluation s,
      start surroundings files (.text prelude) expansion evaluation initial = .ok limits s →
      ∃ s₀ v, start surroundings files .none expansion evaluation initial = .ok limits s₀ ∧
        evalText limits prelude s₀ = .ok v s ∧
        EndsAs limits prelude second (prelude ++ [Text.newline] ++ second) s₀ := by
  refine ⟨fun first blank hfirst hne hblank s =>
    Session.endsAs_append hfirst hne hblank second limits s, ?_⟩
  intro surroundings files prelude expansion evaluation s h
  obtain ⟨s₀, v, hstart, htext⟩ := Session.start_thenText _ _ _ _ _ _ _ _ h
  refine ⟨s₀, v, hstart, htext, ?_⟩
  exact Session.endsAs_append (Session.fault_of_evalText_ok htext) (List.cons_ne_nil _ _)
    (List.forall_mem_singleton.2 rfl) second limits s₀

/-- A definition, an ideographic space, and a text with a flaw behind its first form: the definition
is kept, also as a prelude. -/
theorem evalText_consecutive_flaw :
    let first := Text.ofString "[\"def\",\"a\",1]"
    let second := Text.ofString "\"a\" ]"
    let started (prelude : Session.Prelude) := start ⟨[], fun _ => none⟩
      (fun path => .error (.refused .missing path)) prelude (some 1) (some 9) initial
    let s := Outcome.state (started .none)
    let t := Outcome.state (started (.text first))
    EndsAs ⟨1, 9⟩ first second (first ++ [0x3000] ++ second) s ∧
      (Outcome.state (evalText ⟨1, 9⟩ (first ++ [0x3000] ++ second) s)).globals.contains [97] = true ∧
      ∃ s₀ v, started .none = .ok ⟨1, 9⟩ s₀ ∧ evalText ⟨1, 9⟩ first s₀ = .ok v t ∧
        EndsAs ⟨1, 9⟩ first second (first ++ [Text.newline] ++ second) s₀ := by
  intro first second started s t
  have hread : (Json.decodeAll first).2.isNone = true := by decide +kernel
  have hstart : Outcome.value? (started (.text first)) = some ⟨1, 9⟩ := by decide +kernel
  obtain ⟨htexts, hpreludes⟩ := evalText_consecutive ⟨1, 9⟩ second
  refine ⟨htexts first [0x3000] (Option.isNone_iff_eq_none.1 hread) (List.cons_ne_nil _ _)
    (List.forall_mem_singleton.2 rfl) s, by decide +kernel, ?_⟩
  exact hpreludes _ _ first (some 1) (some 9) t (Outcome.eq_ok_of_value? hstart)

end JsonLisp
