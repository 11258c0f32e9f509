import JsonLisp.Evaluation.Basic
import JsonLisp.Settings

/-!
# Sessions

A session starts with the primitives and the transformer of `let`, runs the two bootstrap programs
that define `defun` and `not`, and then the prelude if there is one. After that it answers
requests, each with an empty local environment.

## Main definitions

* `Session.initial`, `Session.bootstrap`.
* `Session.start`: a session with its limits and its prelude.
* `Session.evalText`, `Session.evalOne`: requests given as program text.
-/

namespace JsonLisp

open Text (ofString)

/-- What ends a session, or keeps it from starting. -/
inductive Failure where
  | evaluation (e : Error)
  | setting (e : SettingError)
  | file (e : FileError)
  /-- The limit of nesting asks for more frames than can be counted. -/
  | limitTooLarge
  /-- In the place of the expression to evaluate there is only the marker `--`. -/
  | noExpression

def Failure.message : Failure → Text
  | .evaluation e => e.message
  | .setting e => e.message
  | .file e => e.message
  | .limitTooLarge => ofString "Python int too large to convert to C int"
  | .noExpression => ofString "expected string or bytes-like object, got 'list'"

namespace Session

/-! ### Requests -/

def readAll (text : Text) : List Value × Option Error :=
  let (documents, fault) := Json.decodeAll text
  (Value.ofJsonItems documents, fault.map .malformed)

def readOne (text : Text) : Except Error Value :=
  match Json.decode text with
  | .ok document => .ok (.ofJson document)
  | .error fault => .error (.malformed fault)

/-- A form in the empty local environment. -/
def evalTop (limits : Limits) (form : Value) : Run Value := evaluate limits form .root

/-- The forms of a text in order. What is wrong with the text shows after the forms before it
have been evaluated; the result is the last value. -/
def evalText (limits : Limits) (text : Text) : Run Value := do
  let (forms, fault) := readAll text
  let value ← evalSequence (evaluate limits) .root forms
  match fault with
  | some e => throw e
  | none => return value

/-- The one form of a text. -/
def evalOne (limits : Limits) (text : Text) : Run Value := do
  evalTop limits (← Run.ofExcept (readOne text))

/-- The head and the arguments of a form that is to be expanded. A text counts as the list of its
code points, and a map has no first part. -/
def callParts (form : Value) : Except Error (Value × List Value) :=
  match form with
  | .list (head :: args) => .ok (head, args)
  | .text (c :: rest) => .ok (.text [c], rest.map fun d => .text [d])
  | .list [] => .error .noFirstPart
  | .text [] => .error .noFirstCharacter
  | .map _ => .error (.absentKey (ofString "0"))
  | other => .error (.noParts other.typeName)

/-- A head that is no text names no macro. -/
def headName (head : Value) : Except Error Text :=
  match head with
  | .text name => .ok name
  | .list _ | .map _ => .error (.unusableKey head.typeName)
  | other => do throw (.absentKey (← other.display))

/-- The expansion of a macro call until it is none, without its evaluation. -/
def expand (limits : Limits) (form : Value) : Run Value := do
  let (head, args) ← Run.ofExcept (callParts form)
  expandCall (engine limits) limits.expansion (← Run.ofExcept (headName head)) args

/-- One step of the expansion of a macro call. -/
def expandStep (limits : Limits) (form : Value) : Run Value := do
  let (head, args) ← Run.ofExcept (callParts form)
  expandOnce (engine limits) (← Run.ofExcept (headName head)) args

def isMacroCall (s : State) (form : Value) : Bool := (macroCall? s.macros form).isSome

/-! ### Start -/

/-- The primitives under their names, and `let` among the macros. -/
def initial : State :=
  { State.empty with
    globals := ⟨Primitive.globalNames.map fun name => (name, .builtin name)⟩
    macros := ⟨[(Primitive.letName, .builtin Primitive.letName)]⟩ }

open Value (word)

/-- A call in the template of a macro: the head is quoted. -/
def template (head : String) (args : List Value) : Value :=
  .list (word "list" :: .list [word "", word head] :: args)

/-- `defun` takes a name, a parameter list and a body; it defines the function globally and
returns the name. -/
def defunDefinition : Value :=
  .list [word "defmacro", word "defun",
    .list [word "name", word "params", word "&", word "body"],
    template "do"
      [template "def"
        [word "name",
          .list [word "append", template "fn" [word "params"], word "body"]],
        template "" [word "name"]]]

/-- `not` is true of `false` and `null` alone. -/
def notDefinition : Value :=
  .list [word "defun", word "not", .list [word "x"],
    .list [word "if", word "x", .bool false, .bool true]]

def bootstrap (limits : Limits) : Run Unit := do
  let _ ← evalTop limits defunDefinition
  let _ ← evalTop limits notDefinition
  Run.record (.bootstrapComplete (← get).macros.names)

/-- What is evaluated before the first request. -/
inductive Prelude where
  | none
  /-- The file that the surroundings name, if any. -/
  | automatic
  | text (t : Text)

abbrev Start := EStateM Failure State

def Start.ofRun {α : Type} (r : Run α) : Start α := EStateM.adaptExcept .evaluation r

def Start.ofSetting {α : Type} : Except SettingError α → Start α
  | .ok a => pure a
  | .error e => throw (.setting e)

/-- Frames of the host for each nested form, and those kept in reserve. -/
def framesFor (evaluationLimit : Int) : Int := evaluationLimit * 6 + 1000

/-- Notes how many frames a session may take, if that is more than the reserve. -/
def reserveFrames (limits : Limits) : Start Unit := do
  let frames := framesFor limits.evaluation
  if 1000 < frames then
    if Nat.pow 2 31 ≤ frames then throw .limitTooLarge
    Start.ofRun (Run.record (.frameLimitRaised frames))

/-- A prelude file that is missing is reported and passed over. -/
def loadPrelude (limits : Limits) (files : Files) (path : Path) : Start Unit :=
  match files.readText path with
  | .ok content => Start.ofRun do
    Run.record (.loadingPrelude path.toText)
    let _ ← evalText limits content.unifyNewlines
  | .error (.refused .missing path) => Start.ofRun (Run.record (.preludeMissing path.toText))
  | .error e => throw (.file e)

def runPrelude (limits : Limits) (surroundings : Surroundings) (files : Files) :
    Prelude → Start Unit
  | .none => pure ()
  | .text t => Start.ofRun do let _ ← evalText limits t
  | .automatic => do
    match ← Start.ofSetting surroundings.preludePath? with
    | some path => loadPrelude limits files path
    | none => pure ()

/-- A started session: its limits, with the state as the result of the start. Limits that are not
given come from the surroundings. -/
def start (surroundings : Surroundings) (files : Files) (prelude : Prelude)
    (expansion evaluation : Option Int) : Start Limits := do
  let expansion ← match expansion with
    | some n => pure n
    | none => Start.ofSetting surroundings.expansionLimit
  let evaluation ← match evaluation with
    | some n => pure n
    | none => Start.ofSetting surroundings.evaluationLimit
  let limits : Limits := ⟨expansion, evaluation⟩
  reserveFrames limits
  Start.ofRun (bootstrap limits)
  runPrelude limits surroundings files prelude
  return limits

end Session

end JsonLisp
