import JsonLisp.Proofs.Evaluation.Depth
import JsonLisp.Proofs.Session.Failures
import JsonLisp.Proofs.Simulation.Renumbering

/-!
# Lines of the read loop one after the other

A line of the read loop leaves to the lines after it what it has defined, and nothing else: not the
forms that were under evaluation when it failed, not what it has printed, and of the closures that
it has made nothing but their number, which no program can see. The loop goes on after every line
that it can answer: all that ends it early is a text of its own that cannot be written, and into
memory every text can be.

## Main definitions

* `ReadLoop.Reached`: the states in which a line can be read.
* `ReadLoop.heard`: the lines before an interrupt.
* `ReadLoop.Sink.TakesAll`: no text is refused.
* `ReadLoop.complete`: the transcript of a loop that has answered all its lines.
* `turns_isolated`: later lines after a line that defines nothing, and the end of the loop.
-/

namespace JsonLisp

open Session (TextRequest)

/-! ### States of a session -/

namespace Session

theorem known_initial : initial.Known where
  globals := List.forall_mem_map.2 fun _ _ => Value.known_atom rfl
  macros := List.forall_mem_singleton.2 (Value.known_atom rfl)

theorem known_evaluate (limits : Limits) {form : Value} {env : Environment} {s : State}
    (hform : form.Known s.nextIdentity) (henv : ∀ b ∈ env.items, b.2.Known s.nextIdentity)
    (hs : s.Known) : (Outcome.state (evaluate limits form env s)).Known := by
  have hrun := (Simulation.renumbered s.nextIdentity 0).runs_evaluate limits
    (hform.renumbersTo_self fun _ => shift_of_lt 0)
    (Environment.renumbersTo_self (fun _ => shift_of_lt 0) henv)
  exact (Simulation.known_of_runs hrun hs).1

/-- There are no closures in the bootstrap programs. -/
theorem known_bootstrapForms (n : Nat) : defunDefinition.Known n ∧ notDefinition.Known n := by
  constructor <;> simp [defunDefinition, notDefinition, template, Value.word]

/-- After each part of a start the closures in the tables have been made before. -/
def knownLaw : Start.Law where
  Holds m := ∀ s : State, s.Known → (Outcome.state (m s)).Known
  holds_pure _ _ hs := hs
  holds_throw _ _ hs := hs
  holds_bind hm hf s hs := state_bind (hm s hs) fun a t _ ht => hf a t ht
  holds_record _ _ hs := ⟨hs.globals, hs.macros⟩
  holds_evalTop limits form h s hs := by
    have hform : form.Known s.nextIdentity := by
      obtain rfl | rfl := h
      · exact (known_bootstrapForms _).1
      · exact (known_bootstrapForms _).2
    rw [Start.state_ofRun]
    exact known_evaluate limits hform (fun _ hb => absurd hb List.not_mem_nil) hs
  holds_evalText limits text s hs := by
    rw [Start.state_ofRun]
    exact (Simulation.known_of_runs (Simulation.runs_evalText _ limits text) hs).1

end Session

namespace ReadLoop

/-- The states in which a line can be read: a session has started, and then it has answered texts,
evaluated what programs can have made by then, and read other lines, whatever the outcomes. -/
inductive Reached (limits : Limits) : State → Prop
  | start {surroundings : Surroundings} {files : Files} {prelude : Session.Prelude}
      {expansion evaluation : Option Int} {s : State} :
      Session.start surroundings files prelude expansion evaluation Session.initial =
        .ok limits s →
      Reached limits s
  | request {s : State} (h : Reached limits s) (request : TextRequest) :
      Reached limits (Outcome.state (request.run limits s))
  | evaluation {s : State} (h : Reached limits s) {form : Value} {env : Environment}
      (hform : form.Known s.nextIdentity) (henv : ∀ b ∈ env.items, b.2.Known s.nextIdentity) :
      Reached limits (Outcome.state (evaluate limits form env s))
  | line {s : State} (h : Reached limits s) (line : Text) : Reached limits (respond limits line s).2

/-! ### Transcripts -/

/-- Two loops have written the same, asked as often and ended alike. -/
structure Transcript.Alike (a b : Transcript) : Prop where
  output : a.output = b.output
  prompts : a.prompts = b.prompts
  refused? : a.refused? = b.refused?

theorem Transcript.Alike.after {a b : Transcript} (h : a.Alike b) (text : Text) :
    (a.after text).Alike (b.after text) where
  output := by simp only [Transcript.after, h.output]
  prompts := by simp only [Transcript.after, h.prompts]
  refused? := h.refused?

theorem alike_ended (out : Sink) (echo : Text) (s t : State) :
    (ended out echo s).Alike (ended out echo t) := by
  unfold ended
  split <;> exact ⟨rfl, rfl, rfl⟩

section Turns

variable {out : Sink} {limits : Limits} {echo line : Text} {rest : List (Option Text)} {s : State}

theorem turns_taken (h : (respond limits line s).1.answer?.all out.accepts = true) :
    turns out limits echo (some line :: rest) s =
      (turns out limits echo rest (respond limits line s).2).after
        (echo ++ (respond limits line s).1.text) := if_pos h

theorem turns_refused (h : ¬ (respond limits line s).1.answer?.all out.accepts = true) :
    turns out limits echo (some line :: rest) s =
      ⟨echo ++ (respond limits line s).1.printed, 1, (respond limits line s).2,
        (respond limits line s).1.answer?⟩ := if_neg h

end Turns

/-! ### A line in two states -/

/-- The state in which a line is answered. -/
def quiet (s : State) : State := { s with printed := [] }

section Renumbered

variable {c δ n : Nat} {s t : State} (limits : Limits) (line : Text)

theorem renumbered_answer (h : State.Renumbered c δ n s t) :
    (answer limits line s).1 = (answer limits line t).1 ∧
      ∃ m, n ≤ m ∧ State.Renumbered c δ m (answer limits line s).2 (answer limits line t).2 := by
  have hrun := runs_evalLine (Simulation.renumbered c δ) limits line h
  unfold answer
  generalize evalLine limits line s = r at hrun
  generalize evalLine limits line t = r' at hrun
  cases hrun with
  | ok hle htext hst => exact ⟨htext, _, hle, hst⟩
  | error hle _ hst => exact ⟨rfl, _, hle, { hst with }⟩

theorem renumbered_respond (h : State.Renumbered c δ n (quiet s) (quiet t)) :
    (respond limits line s).1 = (respond limits line t).1 ∧
      ∃ m, n ≤ m ∧ State.Renumbered c δ m (quiet (respond limits line s).2)
        (quiet (respond limits line t).2) := by
  obtain ⟨htext, m, hle, hst⟩ := renumbered_answer limits line h
  unfold quiet at htext hst
  unfold respond
  split
  · exact ⟨rfl, n, le_rfl, h⟩
  · have houtput := congrArg (fun printed => printed.reverse.flatMap State.line) hst.printed
    refine ⟨?_, m, hle, { hst with printed := rfl }⟩
    simp only [State.output, htext, houtput]

/-- Lines are answered alike in two states that differ in the closures to come. -/
theorem alike_of_renumbered (out : Sink) (echo : Text) {lines : List (Option Text)}
    (h : State.Renumbered c δ n (quiet s) (quiet t)) :
    (turns out limits echo lines s).Alike (turns out limits echo lines t) := by
  induction lines generalizing n s t with
  | nil => exact alike_ended out echo s t
  | cons first rest ih =>
    cases first with
    | none => exact alike_ended out echo s t
    | some line =>
      obtain ⟨hreply, m, -, hst⟩ := renumbered_respond limits line h
      by_cases htaken : (respond limits line t).1.answer?.all out.accepts = true
      · rw [turns_taken htaken, turns_taken (hreply ▸ htaken), hreply]
        exact (ih hst).after _
      · rw [turns_refused htaken, turns_refused (hreply ▸ htaken), hreply]
        exact ⟨rfl, rfl, rfl⟩

end Renumbered

/-! ### What a line leaves behind -/

theorem state_bind_ofExcept {α β : Type} (m : Run α) (f : α → Except Error β) (s : State) :
    Outcome.state ((m >>= fun a => Run.ofExcept (f a)) s) = Outcome.state (m s) := by
  cases h : m s with
  | ok a t =>
    rw [bind_of_ok h]
    cases f a <;> rfl
  | error e t =>
    rw [bind_of_error h]
    rfl

/-- A line changes the state by an evaluation or, if it cannot be read, not at all. -/
theorem state_evalLine (limits : Limits) (line : Text) (s : State) :
    Outcome.state (evalLine limits line s) = s ∨
      ∃ form, Outcome.state (evalLine limits line s) =
        Outcome.state (evaluate limits form .root s) := by
  have hvalue : Outcome.state (evalLine limits line s) =
      Outcome.state (Session.evalOne limits line s) := state_bind_ofExcept _ Value.encode s
  rw [hvalue, Session.evalOne]
  cases Session.readOne line with
  | error e => exact .inl rfl
  | ok form => exact .inr ⟨form, rfl⟩

theorem depth_answer (limits : Limits) (line : Text) (s : State) :
    (answer limits line s).2.depth = s.depth := by
  have hdepth : (Outcome.state (evalLine limits line s)).depth = s.depth := by
    obtain h | ⟨form, h⟩ := state_evalLine limits line s
    · rw [h]
    · rw [h, depth_evaluate]
  unfold answer
  cases h : evalLine limits line s <;> rw [h] at hdepth <;> exact hdepth

theorem grows_answer (limits : Limits) (line : Text) (s : State) :
    s.Grows (answer limits line s).2 := by
  have hgrows : s.Grows (Outcome.state (evalLine limits line s)) := by
    obtain h | ⟨form, h⟩ := state_evalLine limits line s
    · rw [h]
      exact .refl s
    · rw [h]
      exact onlyGrows_evaluate limits form .root s
  unfold answer
  cases h : evalLine limits line s with
  | ok text t =>
    rw [h] at hgrows
    exact hgrows
  | error e t =>
    rw [h] at hgrows
    exact hgrows.trans (t.grows_record rfl rfl)

theorem grows_respond (limits : Limits) (line : Text) (s : State) :
    (quiet s).Grows (respond limits line s).2 := by
  unfold respond
  split
  · exact ⟨[], rfl, .refl _, .refl _, List.nil_suffix⟩
  · exact grows_answer limits line (quiet s)

/-- What a line can do to the tables is to define names in them. -/
theorem tables_eq_of_names {limits : Limits} {line : Text} {s : State}
    (hglobals : (respond limits line s).2.globals.names = s.globals.names)
    (hmacros : (respond limits line s).2.macros.names = s.macros.names) :
    (respond limits line s).2.globals = s.globals ∧
      (respond limits line s).2.macros = s.macros :=
  have hgrows := grows_respond limits line s
  ⟨hgrows.globals_eq hglobals, hgrows.macros_eq hmacros⟩

/-- No form is left under evaluation, and the closures in the tables are among those made so far. -/
structure Settled (s t : State) : Prop where
  depth : t.depth = s.depth
  known : t.Known
  nextIdentity_le : s.nextIdentity ≤ t.nextIdentity

section Settled

variable {limits : Limits} {s t : State}

theorem settled_answer (line : Text) (hs : s.Known) : Settled s (answer limits line s).2 := by
  obtain ⟨-, n, hle, hst⟩ := renumbered_answer limits line hs.renumbered_self
  exact ⟨depth_answer limits line s, hst.known,
    Nat.le_trans hle (Nat.le_of_eq hst.nextIdentity.symm)⟩

theorem settled_respond (line : Text) (hs : s.Known) : Settled s (respond limits line s).2 := by
  unfold respond
  split
  · exact ⟨rfl, hs, le_rfl⟩
  · have hquiet : (quiet s).Known := ⟨hs.globals, hs.macros⟩
    obtain ⟨hdepth, hknown, hle⟩ : Settled (quiet s) (answer limits line (quiet s)).2 :=
      settled_answer line hquiet
    exact ⟨hdepth, hknown, hle⟩

theorem Reached.known (h : Reached limits s) : s.Known := by
  induction h with
  | @start surroundings files prelude expansion evaluation s hstart =>
    have hs := Session.knownLaw.holds_start surroundings files prelude expansion evaluation
      Session.initial Session.known_initial
    rwa [hstart] at hs
  | request _ request ih =>
    exact (Simulation.known_of_runs (Session.runs_textRequest _ limits request) ih).1
  | evaluation _ hform henv ih => exact Session.known_evaluate limits hform henv ih
  | line _ line ih => exact (settled_respond line ih).known

/-- In the same tables lines are answered alike after more closures have been made. -/
theorem Settled.alike (h : Settled s t) (hs : s.Known) (hglobals : t.globals = s.globals)
    (hmacros : t.macros = s.macros) (out : Sink) (echo : Text) (lines : List (Option Text)) :
    (turns out limits echo lines s).Alike (turns out limits echo lines t) := by
  -- The closures made in between are not in the tables, so only their number `δ` is left.
  obtain ⟨δ, hδ⟩ := Nat.exists_eq_add_of_le h.nextIdentity_le
  have hquiet : (quiet s).Known := ⟨hs.globals, hs.macros⟩
  have hst : State.Renumbered s.nextIdentity δ s.nextIdentity (quiet s) (quiet t) :=
    hquiet.renumbered hglobals hmacros rfl h.depth hδ
  exact alike_of_renumbered limits out echo hst

end Settled

/-! ### The loop -/

/-- The lines before the first interrupt. -/
def heard (lines : List (Option Text)) : List Text :=
  (lines.takeWhile Option.isSome).filterMap id

/-- The replies to the lines one after the other. -/
def replies (limits : Limits) : List Text → State → List Reply
  | [], _ => []
  | line :: rest, s =>
    (respond limits line s).1 :: replies limits rest (respond limits line s).2

/-- What is written for the lines, and when there are no more. -/
def told (limits : Limits) (echo : Text) (lines : List Text) (s : State) : Text :=
  (replies limits lines s).flatMap (fun r => echo ++ r.text) ++ (echo ++ [Text.newline])

/-- The transcript of a loop that has answered all lines. -/
def complete (limits : Limits) (echo : Text) (lines : List Text) (s : State) : Transcript where
  output := opening ++ told limits echo lines s
  prompts := lines.length + 1
  state := lines.foldl (fun t line => (respond limits line t).2) s
  refused? := none

/-- What the loop itself writes while it answers the lines, as opposed to programs. -/
def writings (limits : Limits) (lines : List Text) (s : State) : List Text :=
  opening :: (replies limits lines s).filterMap Reply.answer? ++ [[Text.newline]]

/-- No text is refused, as in memory. -/
def Sink.TakesAll (out : Sink) : Prop := ∀ text, out.accepts text = true

theorem takesAll_memory : Sink.memory.TakesAll := fun _ => rfl

/-- Blank lines only are not answered. -/
theorem answer?_eq_none_iff {limits : Limits} {line : Text} {s : State} :
    (respond limits line s).1.answer? = none ↔ line.isBlankText = true := by
  unfold respond
  split
  · rename_i hblank
    exact iff_of_true rfl hblank
  · rename_i hblank
    exact iff_of_false (Option.some_ne_none _) hblank

/-! ### The end of the loop -/

section Ended

variable {out : Sink} {echo : Text} {s : State}

theorem refused?_ended : (ended out echo s).refused? =
    [[Text.newline]].find? fun text => !out.accepts text := by
  unfold ended
  split <;> simp [*]

theorem ended_of_not_refused (h : (ended out echo s).refused? = none) :
    ended out echo s = ⟨echo ++ [Text.newline], 1, s, none⟩ := by
  unfold ended at h ⊢
  split at h
  · exact if_pos ‹_›
  · cases h

theorem output_ended : (ended out echo s).output <+: echo ++ [Text.newline] := by
  unfold ended
  split
  · exact List.prefix_rfl
  · exact List.prefix_append _ _

end Ended

section Ending

variable (out : Sink) (limits : Limits) (echo : Text) (lines : List (Option Text)) (s : State)

theorem refused?_turns : (turns out limits echo lines s).refused? =
    ((replies limits (heard lines) s).filterMap Reply.answer? ++ [[Text.newline]]).find?
      fun text => !out.accepts text := by
  induction lines generalizing s with
  | nil => exact refused?_ended
  | cons first rest ih =>
    cases first with
    | none => exact refused?_ended
    | some line =>
      cases hanswer : (respond limits line s).1.answer? with
      | none =>
        rw [turns_taken (by simp [hanswer])]
        simpa [heard, replies, hanswer, Transcript.after] using ih _
      | some text =>
        by_cases htext : out.accepts text = true
        · rw [turns_taken (by simpa [hanswer] using htext)]
          simpa [heard, replies, hanswer, htext, Transcript.after] using ih _
        · rw [turns_refused (by simpa [hanswer] using htext)]
          simp [heard, replies, hanswer, htext]

theorem told_cons (line : Text) (rest : List Text) :
    told limits echo (line :: rest) s = echo ++ (respond limits line s).1.text ++
      told limits echo rest (respond limits line s).2 := by
  simp [told, replies]

/-- A loop in which nothing is refused has answered all lines. -/
theorem turns_of_not_refused (h : (turns out limits echo lines s).refused? = none) :
    turns out limits echo lines s =
      { complete limits echo (heard lines) s with output := told limits echo (heard lines) s } := by
  induction lines generalizing s with
  | nil => exact ended_of_not_refused h
  | cons first rest ih =>
    cases first with
    | none => exact ended_of_not_refused h
    | some line =>
      by_cases htaken : (respond limits line s).1.answer?.all out.accepts = true
      · rw [turns_taken htaken] at h ⊢
        rw [ih _ h]
        simp [Transcript.after, complete, heard, told_cons]
      · rw [turns_refused htaken] at h
        simp [show (respond limits line s).1.answer? = none from h] at htaken

/-- What has been written when the loop ends early has been written as into memory. -/
theorem output_turns :
    (turns out limits echo lines s).output <+: told limits echo (heard lines) s := by
  induction lines generalizing s with
  | nil => exact output_ended
  | cons first rest ih =>
    cases first with
    | none => exact output_ended
    | some line =>
      change _ <+: told limits echo (line :: heard rest) s
      rw [told_cons]
      by_cases htaken : (respond limits line s).1.answer?.all out.accepts = true
      · rw [turns_taken htaken]
        exact (List.prefix_append_right_inj _).2 (ih _)
      · rw [turns_refused htaken, Reply.text]
        simp

theorem refused?_runOn : (runOn out limits echo lines s).refused? =
    (writings limits (heard lines) s).find? fun text => !out.accepts text := by
  unfold runOn writings
  rw [List.cons_append]
  split
  · rename_i hopening
    rw [List.find?_cons_of_neg (by simpa using hopening)]
    exact refused?_turns out limits echo lines s
  · rename_i hopening
    rw [List.find?_cons_of_pos (by simpa using hopening)]

theorem runOn_of_not_refused (h : (runOn out limits echo lines s).refused? = none) :
    runOn out limits echo lines s = complete limits echo (heard lines) s := by
  unfold runOn at h ⊢
  split at h
  · rw [if_pos ‹_›, turns_of_not_refused out limits echo lines s h]
    rfl
  · cases h

theorem runOn_of_takesAll (hout : out.TakesAll) :
    runOn out limits echo lines s = complete limits echo (heard lines) s := by
  refine runOn_of_not_refused out limits echo lines s ?_
  rw [refused?_runOn, List.find?_eq_none]
  intro text _
  simp [hout text]

theorem output_runOn :
    (runOn out limits echo lines s).output <+: (complete limits echo (heard lines) s).output := by
  unfold runOn
  split
  · exact (List.prefix_append_right_inj _).2 (output_turns out limits echo lines s)
  · exact List.nil_prefix

end Ending

end ReadLoop

open ReadLoop (Reached Sink heard respond answer turns runOn complete writings)

end JsonLisp
