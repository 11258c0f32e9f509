import JsonLisp.CommandLine.Run
import JsonLisp.Proofs.Session.WellFormed

/-!
# How requests fail

A request of program texts fails with an error of the language, with one exception: a message that
has to show an integer of more than `Text.maxNumeralDigits` digits cannot be made, and the failure to
make it takes the place of the error. The command line reports all other failures.

## Main definitions

* `served_failures`: the failures of requests, of expressions and of program files.
* `tooLongToReport`: a program with an error that is not reported.
-/

namespace JsonLisp

open Session (Served TextRequest)
open CommandLine (Ending evalResult fileResult)

theorem Error.Ordinary.ofLanguage_or {e : Error} (h : e.Ordinary) :
    e.kind.ofLanguage = true ∨ e.kind = .unprintable := by
  refine h.imp_left fun hforeseen => ?_
  unfold ErrorKind.isForeseen at hforeseen
  split at hforeseen
  · cases hforeseen
  · exact hforeseen

/-- A program that is done or answered by an error message, unless the message cannot be made. -/
def CommandLine.Ending.Reported (ending : Ending) : Prop :=
  ending = .done ∨ (∃ message, ending = .refused message) ∨
    ∃ e : Error, ending = .broken (.evaluation e) ∧ e.kind = .unprintable

theorem Error.Ordinary.reported {e : Error} (h : e.Ordinary) : (Ending.ofError e).Reported := by
  unfold Ending.ofError
  split
  · exact .inr (.inl ⟨_, rfl⟩)
  · rename_i hother
    exact .inr (.inr ⟨e, rfl, h.ofLanguage_or.resolve_left hother⟩)

theorem runs_evalLine {W : Type} [Preorder W] (S : Simulation W) {w : W} (limits : Limits)
    (line : Text) :
    S.Runs w (fun _ => Eq) (ReadLoop.evalLine limits line) (ReadLoop.evalLine limits line) := by
  refine Simulation.runs_bind (S.runs_evalOne limits line) fun _ hvalue => ?_
  refine Simulation.runs_ofExcept (R := fun _ => Eq) ?_
  unfold Value.encode
  rw [← S.val_wire hvalue]
  cases (Value.wire _).write with
  | ok text => exact .ok rfl
  | error fault => exact Simulation.results_foreseen rfl

section Served

variable {limits : Limits} {s : State} (h : Served limits s)
include h

theorem ordinary_of_error {α : Type} {R : Unit → α → α → Prop} {r : Run α}
    (hr : Simulation.wellFormed.Runs () R r r) {e : Error} {t : State}
    (hfail : r s = .error e t) : e.Ordinary := by
  have hrun := hr ⟨rfl, h.wellFormed⟩
  rw [hfail] at hrun
  exact hrun.possible

theorem reported_evalResult (text : Text) :
    (evalResult limits (.text text) s).ending.Reported := by
  unfold evalResult
  dsimp only
  split
  · exact .inl rfl
  · rename_i hfail
    exact (ordinary_of_error h (runs_evalLine Simulation.wellFormed limits text) hfail).reported

theorem reported_fileResult (text : Text) :
    (fileResult limits (.ok text) s).ending.Reported := by
  unfold fileResult
  dsimp only
  split
  · exact .inl rfl
  · rename_i hfail
    exact (ordinary_of_error h (Simulation.wellFormed.runs_evalText limits _) hfail).reported

end Served

/-- Requests of texts fail with errors of the language, or because an integer is too long for the
message. The command line accordingly reports every error of an expression and of a program file
that has a message. There is no other exception where the streams take every text, which is so of
the output of a session (`Run.print`) and of those of the command line; a stream that refuses a text
would be another. -/
theorem served_failures {limits : Limits} {s : State} (h : Served limits s) :
    (∀ (request : TextRequest) e t, request.run limits s = .error e t →
      e.kind.ofLanguage = true ∨ e.kind = .unprintable) ∧
    ∀ text, (evalResult limits (.text text) s).ending.Reported ∧
      (fileResult limits (.ok text) s).ending.Reported := by
  refine ⟨fun request e t hfail => ?_, fun text => ?_⟩
  · have hrun := Session.runs_textRequest Simulation.wellFormed (w := ()) limits request
    exact (ordinary_of_error h hrun hfail).ofLanguage_or
  · exact ⟨reported_evalResult h text, reported_fileResult h text⟩

/-- The call of a number in a session without a prelude. -/
theorem served_failures_callOfNumber :
    let start := Session.start ⟨[], fun _ => none⟩ (fun path => .error (.refused .missing path))
      .none (some 1) (some 20) Session.initial
    let s := Outcome.state start
    let program := Text.ofString "[1]"
    Served ⟨1, 20⟩ s ∧
      (∃ e t, (TextRequest.eval program).run ⟨1, 20⟩ s = .error e t ∧
        (e.kind.ofLanguage = true ∨ e.kind = .unprintable)) ∧
      (evalResult ⟨1, 20⟩ (.text program) s).ending.Reported ∧
      (fileResult ⟨1, 20⟩ (.ok program) s).ending.Reported := by
  intro start s program
  have hstart : Outcome.value? start = some ⟨1, 20⟩ := by decide +kernel
  have hs : Served ⟨1, 20⟩ s := .start (Outcome.eq_ok_of_value? hstart)
  obtain ⟨hrequests, hprograms⟩ := served_failures hs
  refine ⟨hs, ?_, hprograms program⟩
  have hfailed :
      (Outcome.value? ((TextRequest.eval program).run ⟨1, 20⟩ s)).isNone = true := by
    decide +kernel
  cases hr : (TextRequest.eval program).run ⟨1, 20⟩ s with
  | ok v t =>
    rw [hr] at hfailed
    cases hfailed
  | error e t => exact ⟨e, t, rfl, hrequests _ e t hr⟩

/-- A function without parameters is given `10 ^ 9` after nine squarings. -/
def tooLongToReport : Text :=
  Text.ofString <| "[[\"fn\",[]],[[\"fn\",[\"s\"]," ++
    "[\"s\",[\"s\",[\"s\",[\"s\",[\"s\",[\"s\",[\"s\",[\"s\",[\"s\",1000000000]]]]]]]]]]," ++
    "[\"fn\",[\"x\"],[\"*\",\"x\",\"x\"]]]]"

/-- The kind of the error of a run that has failed. -/
def Outcome.errorKind? {α : Type} : Outcome Error α → Option ErrorKind
  | .ok _ _ => none
  | .error e _ => some e.kind

/-- Neither a request of this program nor the command line reports an error of the language. -/
theorem tooLongToReport_notReported :
    let surroundings : Surroundings := ⟨[], fun _ => none⟩
    let files : Files := fun path => .error (.refused .missing path)
    ¬ (∀ limits s, Served limits s → ∀ (request : TextRequest) e t,
        request.run limits s = .error e t → e.kind.ofLanguage = true) ∧
      (CommandLine.run ⟨surroundings, files, []⟩
        [Text.ofString "-e", tooLongToReport]).exit.isOk = false := by
  intro surroundings files
  refine ⟨fun hall => ?_, by decide +kernel⟩
  let start := Session.start surroundings files .none (some 1) (some 20) Session.initial
  let s := Outcome.state start
  have hstart : Outcome.value? start = some ⟨1, 20⟩ := by decide +kernel
  have hs : Served ⟨1, 20⟩ s := .start (Outcome.eq_ok_of_value? hstart)
  let request := TextRequest.evaluate tooLongToReport
  have hkind : Outcome.errorKind? (request.run ⟨1, 20⟩ s) = some .unprintable := by decide +kernel
  cases hr : request.run ⟨1, 20⟩ s with
  | ok v t =>
    rw [hr] at hkind
    cases hkind
  | error e t =>
    rw [hr] at hkind
    have hlanguage := hall _ s hs _ e t hr
    rw [Option.some.inj hkind] at hlanguage
    cases hlanguage

end JsonLisp
