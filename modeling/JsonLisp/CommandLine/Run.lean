import JsonLisp.CommandLine.Arguments
import JsonLisp.ReadLoop

/-!
# The command line

The program evaluates one expression, a file, or the lines of its input. What it writes is a
function of its arguments, its surroundings, the files and the input. Its two streams take every
text, as memory does.

## Main definitions

* `CommandLine.run`: what is written to the two streams, and the exit code.
-/

namespace JsonLisp

open Text (ofString)

namespace CommandLine

structure World where
  surroundings : Surroundings
  files : Files
  input : Text

/-- What the program has written, and its exit code or the failure that ended it. -/
structure Outcome where
  output : Text
  errors : Text
  exit : Except Failure Nat

def line (t : Text) : Text := t ++ [Text.newline]

def usageLine : String := "usage: lson [-h] [-e EXPR] [--log-level LOG_LEVEL] [--version] [file]"

def usage : Text := line (ofString usageLine)

def helpLines : List String :=
  [usageLine,
    "",
    "Evaluate LSON, a Lisp whose programs are JSON documents.",
    "",
    "positional arguments:",
    "  file                  program file of whitespace-separated JSON values",
    "",
    "options:",
    "  -h, --help            show this help message and exit",
    "  -e EXPR, --eval EXPR  evaluate one expression and print the result",
    "  --log-level LOG_LEVEL",
    "                        logging level (default: $LSON_LOG_LEVEL or WARNING)",
    "  --version             show program's version number and exit"]

def help : Text := helpLines.flatMap fun l => line (ofString l)

def version : Text := ofString "lson 0.1.0\n"

def stopped : Stop → Outcome
  | .help => ⟨help, [], .ok 0⟩
  | .version => ⟨version, [], .ok 0⟩
  | .misuse message => ⟨[], usage ++ line (ofString "lson: error: " ++ message), .ok 2⟩

/-- The lines of the log from a threshold on. -/
def log (threshold : Nat) (s : State) : Text :=
  (s.journal.reverse.filter fun e => threshold ≤ e.severity.number).flatMap fun e =>
    line e.logLine

/-- How the work after the start of a session ended: well, with an error that is reported, or with
one that ends the program. -/
inductive Ending where
  | done
  | refused (message : Text)
  | broken (failure : Failure)

/-- Errors of the language are reported. -/
def Ending.ofError (e : Error) : Ending :=
  if e.kind.ofLanguage then .refused e.message else .broken (.evaluation e)

/-- What has been written to the output, the state, and the ending. -/
structure Result where
  output : Text
  state : State
  ending : Ending

/-- What the system refuses is reported too. -/
def Ending.ofFileError : FileError → Ending
  | .refused fault path => .refused (FileError.message (.refused fault path))
  | e => .broken (.file e)

def evalResult (limits : Limits) (expression : OptionValue) (s : State) : Result :=
  match expression with
  | .marker => ⟨s.output, s, .broken .noExpression⟩
  | .text text =>
    match ReadLoop.evalLine limits text s with
    | .ok value t => ⟨t.output ++ line value, t, .done⟩
    | .error e t => ⟨t.output, t, .ofError e⟩

def fileResult (limits : Limits) (content : Except FileError Text) (s : State) : Result :=
  match content with
  | .error e => ⟨s.output, s, .ofFileError e⟩
  | .ok text =>
    match Session.evalText limits text.unifyNewlines s with
    | .ok _ t => ⟨t.output, t, .done⟩
    | .error e t => ⟨t.output, t, .ofError e⟩

def loopResult (limits : Limits) (prompt input : Text) (s : State) : Result :=
  let t := ReadLoop.run limits prompt ((ReadLoop.linesOf input).map some) s
  ⟨s.output ++ t.output, t.state, .done⟩

/-- A loop with a history starts only if the history can be read. -/
def checkHistory (world : World) : Except Failure Unit :=
  match world.surroundings.historyPath? with
  | .error e => .error (.setting e)
  | .ok none => .ok ()
  | .ok (some path) => (world.files.checkHistory path).mapError .file

def result (world : World) (options : Options) (limits : Limits) (s : State) :
    Except Failure Result :=
  match options.expression, options.file with
  | some expression, _ => .ok (evalResult limits expression s)
  | none, some path =>
    .ok (fileResult limits (world.files.readText (Path.ofText path)) s)
  | none, none => do
    checkHistory world
    return loopResult limits world.surroundings.prompt world.input s

/-- The threshold that the arguments ask for. An empty one, and a marker in its place, leaves it
to the surroundings. -/
def threshold (world : World) (options : Options) : Except Outcome Nat :=
  match options.logLevel with
  | some (.text (c :: name)) =>
    match Severity.threshold? (Text.upper (c :: name)) with
    | some number => .ok number
    | none =>
      .error ⟨[], line (ofString "lson: unknown log level " ++ Text.quoted (c :: name)), .ok 2⟩
  | _ =>
    match world.surroundings.logThreshold with
    | .ok number => .ok number
    | .error e => .error ⟨[], [], .error (.setting e)⟩

def runSession (world : World) (options : Options) (threshold : Nat) : Outcome :=
  match Session.start world.surroundings world.files .automatic none none Session.initial with
  | .error failure s => ⟨s.output, log threshold s, .error failure⟩
  | .ok limits s =>
    match result world options limits s with
    | .error failure => ⟨s.output, log threshold s, .error failure⟩
    | .ok r =>
      match r.ending with
      | .done => ⟨r.output, log threshold r.state, .ok 0⟩
      | .refused message =>
        ⟨r.output, log threshold r.state ++ line (ofString "Error: " ++ message), .ok 1⟩
      | .broken failure => ⟨r.output, log threshold r.state, .error failure⟩

def run (world : World) (args : List Text) : Outcome :=
  match Arguments.parse args with
  | .error stop => stopped stop
  | .ok options =>
    match threshold world options with
    | .error outcome => outcome
    | .ok number => runSession world options number

end CommandLine

end JsonLisp
