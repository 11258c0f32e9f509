import JsonLisp.Proofs.Evaluation.Applications
import JsonLisp.Proofs.Evaluation.Visits
import JsonLisp.Proofs.Json.Lines
import JsonLisp.Proofs.Primitive.Refusal
import JsonLisp.Proofs.Session.Bootstrap
import JsonLisp.Proofs.Session.WellFormed
import JsonLisp.Proofs.Simulation.Printed

/-!
# Output as a log

The output of a session is a log of the applications of `p`: one line for each argument up to the
first without a text, from the first application to the last, whatever fails. It only grows, and the
arguments are read back from its lines.

## Main definitions

* `Session.Action`: what can be asked of a session. `Session.Action.runBy` leaves the engine open.
* `Session.Logged`: a state of a session, with all applications of `p` that have led to it.
* `Json.AreLines`: documents on lines of their own.
* `output_lines`: the output in the states of a session.
-/

namespace JsonLisp

/-! ### Lines -/

/-- The text has a line for each document, every line is complete, and the documents are decoded
from the lines. -/
def Json.AreLines (documents : List Json) (t : Text) : Prop :=
  ∃ lines, documents.mapM Json.write = .ok lines ∧ t = lines.flatMap (· ++ [Text.newline]) ∧
    Text.splitOn Text.newline t = lines ++ [[]] ∧ lines.mapM Json.decode = .ok documents

theorem State.line_of_write {d : Json} {t : Text} (h : d.write = .ok t) :
    State.line d = t ++ [Text.newline] := by
  rw [State.line, h]

/-- Each document is on a line without a line break, from which it is decoded. -/
theorem Json.exists_lines {documents : List Json} (htext : ∀ d ∈ documents, d.hasText = true)
    (hreadable : ∀ d ∈ documents, d.Readable) :
    ∃ lines, documents.mapM write = .ok lines ∧
      documents.flatMap State.line = lines.flatMap (· ++ [Text.newline]) ∧
      (∀ t ∈ lines, Text.newline ∉ t) ∧ lines.mapM decode = .ok documents := by
  induction documents with
  | nil => exact ⟨[], rfl, rfl, fun _ ht => absurd ht List.not_mem_nil, rfl⟩
  | cons d rest ih =>
    rw [List.forall_mem_cons] at htext hreadable
    obtain ⟨t, ht⟩ := hasText_iff.1 htext.1
    obtain ⟨lines, hwrite, hflat, hnone, hdecode⟩ := ih htext.2 hreadable.2
    have hprintable := printable_of_write d ht
    refine ⟨t :: lines, ?_, ?_, List.forall_mem_cons.2 ⟨hprintable.newline_not_mem, hnone⟩, ?_⟩
    · rw [List.mapM_cons, ht, hwrite]
      rfl
    · rw [List.flatMap_cons, List.flatMap_cons, State.line_of_write ht, hflat]
    · rw [List.mapM_cons, hreadable.1 t ht, hdecode]
      rfl

theorem Json.areLines_of_readable {documents : List Json}
    (htext : ∀ d ∈ documents, d.hasText = true) (hreadable : ∀ d ∈ documents, d.Readable) :
    AreLines documents (documents.flatMap State.line) := by
  obtain ⟨lines, hwrite, hflat, hnone, hdecode⟩ := exists_lines htext hreadable
  exact ⟨lines, hwrite, hflat, hflat ▸ Text.splitOn_lines hnone, hdecode⟩

namespace Session

/-! ### Actions -/

/-- What can be asked of a session: requests of texts, the evaluation of a form in an environment,
and the expansion of a macro call, completely or by one step. -/
inductive Action where
  | text (request : TextRequest)
  | form (v : Value) (env : Environment)
  | expansion (v : Value)
  | expansionStep (v : Value)

def Action.run (limits : Limits) : Action → Run Value
  | .text request => request.run limits
  | .form v env => evaluate limits v env
  | .expansion v => expand limits v
  | .expansionStep v => expandStep limits v

/-- Actions on values that programs can make. -/
def Action.WellFormed : Action → Prop
  | .text _ => True
  | .form v env => v.WellFormed ∧ ∀ b ∈ env.items, b.2.WellFormed
  | .expansion v => v.WellFormed
  | .expansionStep v => v.WellFormed

/-! The same with the engine open. -/

def evalTextBy (ev : Eval) (text : Text) : Run Value := do
  let (forms, fault) := readAll text
  let value ← evalSequence ev .root forms
  match fault with
  | some e => throw e
  | none => return value

def TextRequest.runBy (ev : Eval) : TextRequest → Run Value
  | .eval text => evalTextBy ev text
  | .evaluate text => do ev (← Run.ofExcept (readOne text)) .root
  | .evalPrelude text => do
    let _ ← evalTextBy ev text
    return .null

def Action.runBy (limits : Limits) (e : Engine) : Action → Run Value
  | .text request => request.runBy e.eval
  | .form v env => e.eval v env
  | .expansion v => do
    let (head, args) ← Run.ofExcept (callParts v)
    expandCall e limits.expansion (← Run.ofExcept (headName head)) args
  | .expansionStep v => do
    let (head, args) ← Run.ofExcept (callParts v)
    expandOnce e (← Run.ofExcept (headName head)) args

theorem Action.runBy_engine (limits : Limits) (a : Action) :
    a.runBy limits (engine limits) = a.run limits := by
  cases a with
  | text request => cases request <;> rfl
  | form | expansion | expansionStep => rfl

section Congruence

variable {C : Congruence} {e e' : Engine}

theorem rel_evalTextBy {ev ev' : Eval} (hev : ∀ v env, C.Rel (ev v env) (ev' v env)) (text : Text) :
    C.Rel (evalTextBy ev text) (evalTextBy ev' text) := by
  unfold evalTextBy
  dsimp only
  refine C.rel_bind (C.rel_evalSequence hev .root _) fun value => ?_
  split
  · exact C.rel_throw _
  · exact C.rel_pure value

theorem Action.rel_runBy (h : C.EngineRel e e') (limits : Limits) (a : Action) :
    C.Rel (a.runBy limits e) (a.runBy limits e') := by
  cases a with
  | text request =>
    cases request with
    | eval text => exact rel_evalTextBy h.eval text
    | evaluate text => exact C.rel_bind (C.rel_ofExcept _) fun form => h.eval form .root
    | evalPrelude text => exact C.rel_bind (rel_evalTextBy h.eval text) fun _ => C.rel_pure _
  | form v env => exact h.eval v env
  | expansion v =>
    refine C.rel_bind (C.rel_ofExcept (callParts v)) fun call => ?_
    exact C.rel_bind (C.rel_ofExcept _) fun name => Congruence.rel_expandCall h _ name call.2
  | expansionStep v =>
    refine C.rel_bind (C.rel_ofExcept (callParts v)) fun call => ?_
    exact C.rel_bind (C.rel_ofExcept _) fun name => Congruence.rel_expandOnce h name call.2

end Congruence

theorem Action.keepsNotes (earlier : List Json) (limits : Limits) (a : Action) :
    KeepsNotes earlier (a.run limits) (a.runBy limits (noter limits)) := by
  rw [← a.runBy_engine]
  exact a.rel_runBy (engineRel_noter limits) limits

/-- What `p` is applied to during an action. -/
def Action.applications (limits : Limits) (a : Action) (s : State) : List (List Json) :=
  JsonLisp.applications (a.runBy limits (noter limits)) s

theorem Action.printed_run (limits : Limits) (a : Action) (s : State) :
    (Outcome.state (a.run limits s)).printed =
      (shown (a.applications limits s)).reverse ++ s.printed :=
  printed_of_keepsNotes (fun earlier => a.keepsNotes earlier limits) s

theorem Action.output_prefix (limits : Limits) (a : Action) (s : State) :
    s.output <+: (Outcome.state (a.run limits s)).output := by
  rw [State.output, State.output, a.printed_run]
  simp

/-! ### Readable documents -/

/-- Well-formed values, and nothing printed that cannot be read back. -/
def Sound (s : State) : Prop := s.WellFormed ∧ ∀ d ∈ s.printed, d.Readable

theorem Sound.st {s : State} (hs : Sound s) : Simulation.readable.St () s s :=
  ⟨⟨rfl, hs.1⟩, hs.2⟩

theorem sound_of_outcomes {α β : Type} {R : Unit → α → β → Prop} {r : Outcome Error α}
    {r' : Outcome Error β} (h : Simulation.readable.Outcomes () R r r') :
    Sound (Outcome.state r) := by
  obtain ⟨_, -, hst⟩ := h.states
  obtain ⟨⟨-, hwellFormed⟩, hreadable⟩ := hst
  exact ⟨hwellFormed, hreadable⟩

/-- The arguments of the call that is to be expanded are parts of the form. -/
theorem wellFormed_callParts {form head : Value} {args : List Value} (hform : form.WellFormed)
    (h : callParts form = .ok (head, args)) : ∀ v ∈ args, v.WellFormed := by
  unfold callParts at h
  split at h
  · cases h
    exact (List.forall_mem_cons.1 (Value.wellFormed_list.1 hform)).2
  · cases h
    exact List.forall_mem_map.2 fun c _ => Value.wellFormed_text [c]
  all_goals cases h

/-- An expansion without a transformer fails and changes nothing. -/
theorem sound_expandOnce {limits : Limits} {name : Text} {args : List Value} {s : State}
    (hs : Sound s) (hargs : ∀ v ∈ args, v.WellFormed) {f : Value → Run Value}
    (hf : ∀ {v v'}, Simulation.Twin v v' →
      Simulation.readable.Runs () (fun _ => Simulation.Twin) (f v) (f v')) :
    Sound (Outcome.state ((expandOnce (engine limits) name args >>= f) s)) := by
  by_cases hbound : s.macros.contains name = true
  · have honce := Simulation.outcomes_expandOnce (Simulation.readable.engines limits) hs.st hbound
      (Simulation.twins_iff.2 ⟨rfl, hargs⟩)
    exact sound_of_outcomes (Simulation.outcomes_bind honce fun _ hv => hf hv)
  · have habsent : s.macros.find? name = none := by
      rw [Table.contains_iff_find?, not_exists] at hbound
      exact Option.eq_none_iff_forall_ne_some.2 hbound
    have hfail : expandOnce (engine limits) name args s =
        .error (.absentKey (Text.quoted name)) s := by
      unfold expandOnce
      rw [read_apply, habsent]
      rfl
    rw [bind_of_error hfail]
    exact hs

/-- A form that is no call is refused before anything happens. -/
theorem sound_call {v : Value} (hv : v.WellFormed) {s : State} (hs : Sound s)
    {k : Text → List Value → Run Value}
    (hk : ∀ name args, (∀ u ∈ args, u.WellFormed) → Sound (Outcome.state (k name args s))) :
    Sound (Outcome.state ((Run.ofExcept (callParts v) >>= fun call =>
      Run.ofExcept (headName call.1) >>= fun name => k name call.2) s)) := by
  cases hparts : callParts v with
  | error e => exact hs
  | ok call =>
    change Sound (Outcome.state ((Run.ofExcept (headName call.1) >>= fun name => k name call.2) s))
    cases headName call.1 with
    | error e => exact hs
    | ok name => exact hk name call.2 (wellFormed_callParts hv hparts)

theorem Action.sound_run {limits : Limits} {a : Action} (ha : a.WellFormed) {s : State}
    (hs : Sound s) : Sound (Outcome.state (a.run limits s)) := by
  cases a with
  | text request =>
    exact sound_of_outcomes (runs_textRequest Simulation.readable limits request hs.st)
  | form v env =>
    exact sound_of_outcomes (Simulation.readable.runs_evaluate limits ⟨rfl, ha.1⟩ ⟨rfl, ha.2⟩ hs.st)
  | expansion v =>
    refine sound_call ha hs fun name args hargs => ?_
    exact sound_expandOnce hs hargs fun hform =>
      Simulation.runs_expandFurther (Simulation.readable.engines limits) _ _ hform
  | expansionStep v =>
    refine sound_call ha hs fun name args hargs => ?_
    rw [← bind_pure (expandOnce (engine limits) name args)]
    exact sound_expandOnce hs hargs fun hv =>
      Simulation.runs_pure (R := fun _ => Simulation.Twin) hv

/-! ### Logs -/

/-- A state that has come about from one in which nothing was printed, by actions and by events that
were noted, with all applications of `p` in between. -/
inductive Logged : List (List Json) → State → Prop
  | empty {s : State} (hs : s.WellFormed) (hprinted : s.printed = []) : Logged [] s
  | event {log : List (List Json)} {s : State} (h : Logged log s) (e : Event) :
      Logged log { s with journal := e :: s.journal }
  | action {log : List (List Json)} {s : State} (h : Logged log s) (limits : Limits) {a : Action}
      (ha : a.WellFormed) :
      Logged (log ++ a.applications limits s) (Outcome.state (a.run limits s))

namespace Logged

variable {log : List (List Json)} {s : State}

theorem sound (h : Logged log s) : Sound s := by
  induction h with
  | empty hs hprinted => exact ⟨hs, by simp [hprinted]⟩
  | event _ e ih => exact ⟨⟨ih.1.globals, ih.1.macros⟩, ih.2⟩
  | action _ limits ha ih => exact Action.sound_run ha ih

theorem printed_eq (h : Logged log s) : s.printed = (shown log).reverse := by
  induction h with
  | empty _ hprinted => exact hprinted
  | event _ e ih => exact ih
  | action _ limits _ ih => rw [Action.printed_run, ih, shown_append, List.reverse_append]

theorem areLines_of_first (h : Logged log s) {documents : List Json}
    (hfirst : documents <+: shown log) :
    Json.AreLines documents (documents.flatMap State.line) := by
  have hreadable := h.sound.2
  rw [h.printed_eq] at hreadable
  refine Json.areLines_of_readable (fun d hd => ?_) fun d hd => ?_
  · exact hasText_of_mem_shown (hfirst.subset hd)
  · exact hreadable d (List.mem_reverse.2 (hfirst.subset hd))

theorem areLines (h : Logged log s) : Json.AreLines (shown log) s.output := by
  rw [State.output, h.printed_eq, List.reverse_reverse]
  exact h.areLines_of_first List.prefix_rfl

/-- At every moment of an evaluation the lines are the first of those at its end. -/
theorem areLines_of_visits (h : Logged log s) {limits : Limits} {v : Value} {env : Environment}
    (ha : (Action.form v env).WellFormed) {u : State}
    (hu : Recursion.Visits limits (Recursion.evaluate limits v env) s u) :
    ∃ documents, documents <+: shown (log ++ (Action.form v env).applications limits s) ∧
      Json.AreLines documents u.output := by
  have hend := h.action limits ha
  have hsuffix := (Recursion.grows_of_visits hu).2.printed_suffix
  change u.printed <:+ (Outcome.state ((Action.form v env).run limits s)).printed at hsuffix
  rw [hend.printed_eq, ← List.reverse_prefix, List.reverse_reverse] at hsuffix
  exact ⟨u.printed.reverse, hsuffix, hend.areLines_of_first hsuffix⟩

end Logged

/-! ### Start -/

/-- After the computation there is a log if there was one before. -/
def Start.KeepsLog {α : Type} (m : Start α) : Prop :=
  ∀ s, (∃ log, Logged log s) → ∃ log, Logged log (Outcome.state (m s))

theorem Start.KeepsLog.bind {α β : Type} {m : Start α} {f : α → Start β} (hm : KeepsLog m)
    (hf : ∀ a, KeepsLog (f a)) : KeepsLog (m >>= f) := fun s hs =>
  state_bind (p := fun t => ∃ log, Logged log t) (hm s hs) fun a t _ ht => hf a t ht

theorem Start.keepsLog_action {limits : Limits} {a : Action} (ha : a.WellFormed) :
    KeepsLog (Start.ofRun (a.run limits)) := by
  rintro s ⟨log, h⟩
  rw [Start.state_ofRun]
  exact ⟨_, h.action limits ha⟩

def logLaw : Start.Law where
  Holds := Start.KeepsLog
  holds_pure _ _ hs := hs
  holds_throw _ _ hs := hs
  holds_bind := .bind
  holds_record := by
    rintro event - s ⟨log, h⟩
    rw [Start.state_ofRun]
    exact ⟨log, h.event (event s)⟩
  holds_evalTop limits form h := by
    have hroot : ∀ b ∈ Environment.root.items, b.2.WellFormed :=
      fun _ hb => absurd hb List.not_mem_nil
    refine Start.keepsLog_action (a := .form form .root) ⟨?_, hroot⟩
    obtain rfl | rfl := h
    · exact wellFormed_bootstrapForms.1
    · exact wellFormed_bootstrapForms.2
  holds_evalText _ text := Start.keepsLog_action (a := .text (.eval text)) trivial

theorem logged_start (surroundings : Surroundings) (files : Files) (prelude : Prelude)
    (expansion evaluation : Option Int) :
    ∃ log, Logged log
      (Outcome.state (start surroundings files prelude expansion evaluation initial)) :=
  logLaw.holds_start surroundings files prelude expansion evaluation initial
    ⟨[], .empty wellFormed_initial rfl⟩

/-- The bootstrap programs print nothing. -/
theorem logged_start_none {surroundings : Surroundings} {files : Files}
    {expansion evaluation : Option Int} {limits : Limits} {s : State}
    (h : start surroundings files .none expansion evaluation initial = .ok limits s) :
    Logged [] s := by
  have hwellFormed := (Served.start h).wellFormed
  obtain ⟨t, -, hprinted, hprelude⟩ := exists_runPrelude_of_start h
  cases hprelude
  exact .empty hwellFormed hprinted

end Session

open Session (Action Logged start initial)

/-- No encoding has a control character. A session without a prelude starts with an empty output,
and with a prelude there is a log of what that has applied. From then on, whatever is asked of the
session and wherever it fails, the output has a line for each argument that the log tells as
printed: the arguments of each application of `p`, in order of evaluation, before the first that
has no text. The lines are complete and are decoded to the wire forms of these arguments. So it is
at every moment of an evaluation, with the first of the lines that there are in the end. An action
only appends to the output, and it ends as the one that notes the applications for the log. -/
theorem output_lines :
    (∀ v t, Value.encode v = .ok t → ∀ c ∈ t, 0x20 ≤ c) ∧
    (∀ surroundings files expansion evaluation limits s,
      start surroundings files .none expansion evaluation initial = .ok limits s → Logged [] s) ∧
    (∀ surroundings files prelude expansion evaluation, ∃ log,
      Logged log (Outcome.state (start surroundings files prelude expansion evaluation initial))) ∧
    (∀ log s, Logged log s → Json.AreLines (shown log) s.output ∧
      ∀ limits v env, (Action.form v env).WellFormed →
        ∀ u, Recursion.Visits limits (Recursion.evaluate limits v env) s u →
          s.output <+: u.output ∧ u.output <+: (Outcome.state (evaluate limits v env s)).output ∧
          ∃ documents, documents <+: shown (log ++ (Action.form v env).applications limits s) ∧
            Json.AreLines documents u.output) ∧
    ∀ limits (a : Action) s,
      s.output <+: (Outcome.state (a.run limits s)).output ∧
      a.run limits s = Outcome.mapState (State.showing s.printed)
        (a.runBy limits (noter limits) { s with printed := [] }) := by
  refine ⟨fun v t h => Json.printable_of_write v.wire (Value.write_of_encode h),
    fun _ _ _ _ _ _ h => Session.logged_start_none h, Session.logged_start,
    fun log s h => ⟨h.areLines, fun limits v env ha u hu => ?_⟩,
    fun limits a s => ⟨a.output_prefix limits s, ?_⟩⟩
  · obtain ⟨hbefore, hafter⟩ := Recursion.grows_of_visits hu
    exact ⟨hbefore.output_prefix, hafter.output_prefix, h.areLines_of_visits ha hu⟩
  · exact a.keepsNotes s.printed limits { s with printed := [] }

/-- A text with a line break, an integer without a text and another one that `p` does not reach, and
then a request with one more application. -/
theorem output_lines_failingPrint :
    let started := start ⟨[], fun _ => none⟩ (fun path => .error (.refused .missing path)) .none
      (some 1) (some 9) initial
    let s := Outcome.state started
    let first := Action.form (.list [.word "p", .list [.word "quote", .text [97, 10, 98]],
      .tooLong, .int 3]) .root
    let t := Outcome.state (first.run ⟨1, 9⟩ s)
    let second := Action.text (.eval (Text.ofString "[\"p\",1]"))
    let u := Outcome.state (second.run ⟨1, 9⟩ t)
    let log := first.applications ⟨1, 9⟩ s ++ second.applications ⟨1, 9⟩ t
    Logged log u ∧ log.map List.length = [3, 1] ∧
      u.output = Text.ofString "\"a\\nb\"\n1\n" ∧ Json.AreLines (shown log) u.output ∧
      t.output <+: u.output := by
  intro started s first t second u log
  obtain ⟨-, hstart, -, hlines, hgrows⟩ := output_lines
  have hstarted : Outcome.value? started = some ⟨1, 9⟩ := by decide +kernel
  have hs := hstart _ _ _ _ _ s (Outcome.eq_ok_of_value? hstarted)
  have hfirst : first.WellFormed :=
    ⟨by simp [Value.word, Value.tooLong], fun _ hb => absurd hb List.not_mem_nil⟩
  have ht := hs.action ⟨1, 9⟩ hfirst
  rw [List.nil_append] at ht
  have hu : Logged log u := ht.action ⟨1, 9⟩ (a := second) trivial
  exact ⟨hu, by decide +kernel, by decide +kernel, (hlines log u hu).1, (hgrows ⟨1, 9⟩ second t).1⟩

end JsonLisp
