import JsonLisp.CommandLine.Run

/-!
# The program

Connects `CommandLine` to the process: its variables, the files that it may need, and its streams.
The read loop answers each line before it asks for the next.
-/

namespace JsonLisp.Program

open Text (ofString)

def variableNames : List String :=
  ["LSON_MAX_EXPANSION_DEPTH", "LSON_MAX_EVAL_DEPTH", "LSON_PROMPT", "LSON_PRELUDE_PATH",
    "LSON_HISTORY_FILE", "LSON_LOG_LEVEL"]

def surroundings : IO Surroundings := do
  let assignments ← variableNames.filterMapM fun name => do
    return (← IO.getEnv name).map fun value => (ofString name, ofString value)
  let home := (← IO.getEnv "HOME").map ofString
  return { assignments, homeOf := fun user => if user.isEmpty then home else none }

/-- The system's number of an error in opening or reading a file. -/
def faultOf : IO.Error → FileFault
  | .inappropriateType _ code _ => if code.toNat = 20 then .notADirectory else .isADirectory
  | .illegalOperation code _ => if code.toNat = 20 then .notADirectory else .isADirectory
  | _ => .missing

def entryAt (path : Path) : IO (Except FileError Entry) := do
  match path.fault? with
  | some fault => return .error (.unusable fault)
  | none =>
    try return .ok (.file (ofString (← IO.FS.readFile path.toText.toString)))
    catch e =>
      match faultOf e with
      | .isADirectory => return .ok .directory
      | fault => return .error (.refused fault path)

/-- What stands at the given paths; all others are taken for missing. -/
def filesAt (paths : List Path) : IO Files := do
  let entries ← paths.mapM fun path => do return (path, ← entryAt path)
  return fun path =>
    match entries.find? (·.1 == path) with
    | some (_, e) => e
    | none => .error (.refused .missing path)

/-- The files that the arguments and the surroundings name. -/
def namedPaths (s : Surroundings) (options : Options) : List Path :=
  let named (path : Except SettingError (Option Path)) : List Path :=
    match path with
    | .ok path => path.toList
    | .error _ => []
  named s.preludePath? ++ named s.historyPath? ++ (options.file.map Path.ofText).toList

def emit (outcome : CommandLine.Outcome) : IO UInt32 := do
  (← IO.getStdout).putStr outcome.output.toString
  (← IO.getStderr).putStr outcome.errors.toString
  match outcome.exit with
  | .ok code => return code.toUInt32
  | .error failure =>
    IO.eprintln failure.message.toString
    return 1

/-- The loop over the lines of the standard input. -/
partial def interact (limits : Limits) (threshold : Nat) (prompt : Text) (s : State) :
    IO Unit := do
  let out ← IO.getStdout
  out.putStr prompt.toString
  out.flush
  let line ← (← IO.getStdin).getLine
  if line.isEmpty then out.putStrLn ""
  else
    let text := ofString line
    let text := if text.getLast? = some Text.newline then text.dropLast else text
    let (reply, t) := ReadLoop.respond limits text { s with journal := [] }
    (← IO.getStderr).putStr (CommandLine.log threshold t).toString
    out.putStr reply.text.toString
    out.flush
    interact limits threshold prompt t

def startLoop (world : CommandLine.World) (threshold : Nat) : IO UInt32 := do
  match Session.start world.surroundings world.files .automatic none none Session.initial with
  | .error failure s =>
    emit ⟨s.output, CommandLine.log threshold s, .error failure⟩
  | .ok limits s =>
    if let .error failure := CommandLine.checkHistory world then
      return ← emit ⟨s.output, CommandLine.log threshold s, .error failure⟩
    (← IO.getStderr).putStr (CommandLine.log threshold s).toString
    (← IO.getStdout).putStr (s.output ++ ReadLoop.opening).toString
    interact limits threshold world.surroundings.prompt s
    return 0

def run (args : List Text) : IO UInt32 := do
  let surroundings ← surroundings
  match Arguments.parse args with
  | .error stop => emit (CommandLine.stopped stop)
  | .ok options =>
    let world : CommandLine.World :=
      { surroundings, files := ← filesAt (namedPaths surroundings options), input := [] }
    match CommandLine.threshold world options with
    | .error outcome => emit outcome
    | .ok number =>
      if options.expression.isNone && options.file.isNone then startLoop world number
      else emit (CommandLine.runSession world options number)

end JsonLisp.Program

def main (args : List String) : IO UInt32 :=
  JsonLisp.Program.run (args.map JsonLisp.Text.ofString)
