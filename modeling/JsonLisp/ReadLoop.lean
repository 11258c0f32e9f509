import JsonLisp.Session

/-!
# The read loop

One form a line: it is evaluated in the session and answered by the wire form of its value or by
an error message. An error ends nothing; the loop ends with the input, at an interrupt, or where
its own text cannot be written. What programs print is not its own: that goes to the output of the
session, which takes every text.

## Main definitions

* `ReadLoop.Sink`: where the loop writes.
* `ReadLoop.respond`: what is said to one line.
* `ReadLoop.runOn`: what is written for a list of lines.
-/

namespace JsonLisp

open Text (ofString)

namespace ReadLoop

def banner : Text := ofString "LSON"

/-- The value of a line in its wire form. -/
def evalLine (limits : Limits) (line : Text) : Run Text := do
  let value ← Session.evalOne limits line
  Run.ofExcept value.encode

def errorLine (e : Error) : Text := ofString "Error: " ++ e.message

/-- The answer to a line, and the state after it. -/
def answer (limits : Limits) (line : Text) (s : State) : Text × State :=
  match evalLine limits line s with
  | .ok text t => (text, t)
  | .error e t => (errorLine e, { t with journal := .lineFailed line e :: t.journal })

/-- What is said to a line: what programs have printed, and the answer on a line of its own. -/
structure Reply where
  printed : Text
  answer? : Option Text

def Reply.text (r : Reply) : Text := r.printed ++ r.answer?.getD []

/-- A blank line is passed over. -/
def respond (limits : Limits) (line : Text) (s : State) : Reply × State :=
  if line.isBlankText then (⟨[], none⟩, s)
  else
    let (text, t) := answer limits line { s with printed := [] }
    (⟨t.output, some (text ++ [Text.newline])⟩, t)

/-! ### Writing -/

/-- Where the loop writes. A text can be refused, as by a stream whose encoding lacks one of its
characters; then nothing of it is written. -/
structure Sink where
  accepts : Text → Bool

namespace Sink

def memory : Sink := ⟨fun _ => true⟩

/-- A stream in UTF-8, which has no form for surrogates. -/
def utf8 : Sink :=
  ⟨fun text => text.all fun c => !(Json.isHighSurrogate c || Json.isLowSurrogate c)⟩

end Sink

/-- What has been written, how often the loop asked for a line, and the state at its end. -/
structure Transcript where
  output : Text
  prompts : Nat
  state : State
  /-- The text that has ended the loop, as it could not be written. -/
  refused? : Option Text

/-- The transcript with what has been written for one line before. -/
def Transcript.after (text : Text) (later : Transcript) : Transcript :=
  { later with output := text ++ later.output, prompts := later.prompts + 1 }

/-- At the end of the input and at an interrupt a line break is written. -/
def ended (out : Sink) (echo : Text) (s : State) : Transcript :=
  if out.accepts [Text.newline] then ⟨echo ++ [Text.newline], 1, s, none⟩
  else ⟨echo, 1, s, some [Text.newline]⟩

/-- The loop over lines of input, `none` for an interrupt. Where a line is asked for, `echo` is
written. -/
def turns (out : Sink) (limits : Limits) (echo : Text) : List (Option Text) → State → Transcript
  | some line :: rest, s =>
    let (reply, t) := respond limits line s
    if reply.answer?.all out.accepts then
      (turns out limits echo rest t).after (echo ++ reply.text)
    else ⟨echo ++ reply.printed, 1, t, reply.answer?⟩
  | _, s => ended out echo s

def opening : Text := banner ++ [Text.newline]

/-- The loop after its banner. -/
def runOn (out : Sink) (limits : Limits) (echo : Text) (lines : List (Option Text)) (s : State) :
    Transcript :=
  if out.accepts opening then
    let t := turns out limits echo lines s
    { t with output := opening ++ t.output }
  else ⟨[], 0, s, some opening⟩

/-- The loop in memory. -/
def run : Limits → Text → List (Option Text) → State → Transcript := runOn .memory

/-- The lines of a text; a last line may lack its line break. -/
def linesOf (input : Text) : List Text :=
  let pieces := Text.splitOn Text.newline input
  if pieces.getLast? = some [] then pieces.dropLast else pieces

end ReadLoop

end JsonLisp
