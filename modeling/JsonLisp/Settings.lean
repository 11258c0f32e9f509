import JsonLisp.Journal
import JsonLisp.Path
import JsonLisp.Text.Numeral
import JsonLisp.Text.Upper

/-!
# Settings

What the environment of a process sets: the two limits, the prompt, the paths of the prelude and
of the history, and the threshold of the log. A variable that is missing or blank leaves the
default, except that a blank threshold is refused and a blank prompt is a prompt.
-/

namespace JsonLisp

open Text (ofString quoted)

/-- The variables of a process and the home directories of its users. -/
structure Surroundings where
  assignments : List (Text × Text)
  /-- The present user is the one without a name. -/
  homeOf : Text → Option Text

inductive SettingError where
  | notAnInteger (setting raw : Text)
  | notPositive (setting : Text) (value : Int)
  | noLevel (setting name : Text)
  | noHome

def SettingError.message : SettingError → Text
  | .notAnInteger setting raw => setting ++ ofString " must be an integer, got " ++ quoted raw
  | .notPositive setting value =>
    setting ++ ofString " must be positive, got " ++ Text.ofInt value
  | .noLevel setting name => setting ++ ofString " is not a logging level: " ++ quoted name
  | .noHome => ofString "Could not determine home directory."

namespace Surroundings

def setting? (s : Surroundings) (name : Text) : Option Text :=
  (s.assignments.find? (·.1 == name)).map (·.2)

/-- The value of a variable, unless it is missing or blank. -/
def filled? (s : Surroundings) (name : Text) : Option Text :=
  (s.setting? name).filter fun raw => !raw.isBlankText

def positiveInt (s : Surroundings) (name : Text) (default : Int) : Except SettingError Int :=
  match s.filled? name with
  | none => .ok default
  | some raw =>
    match Text.readInt? raw with
    | none => .error (.notAnInteger name raw)
    | some value => if value < 1 then .error (.notPositive name value) else .ok value

def path? (s : Surroundings) (name : Text) : Except SettingError (Option Path) :=
  match s.filled? name with
  | none => .ok none
  | some raw =>
    match (Path.ofText raw.trim).expandHome s.homeOf with
    | some path => .ok (some path)
    | none => .error .noHome

def expansionLimit (s : Surroundings) : Except SettingError Int :=
  s.positiveInt (ofString "LSON_MAX_EXPANSION_DEPTH") 1000

def evaluationLimit (s : Surroundings) : Except SettingError Int :=
  s.positiveInt (ofString "LSON_MAX_EVAL_DEPTH") 10000

def prompt (s : Surroundings) : Text :=
  (s.setting? (ofString "LSON_PROMPT")).getD (ofString "> ")

def preludePath? (s : Surroundings) : Except SettingError (Option Path) :=
  s.path? (ofString "LSON_PRELUDE_PATH")

def historyPath? (s : Surroundings) : Except SettingError (Option Path) :=
  s.path? (ofString "LSON_HISTORY_FILE")

/-- The least number of the severities that are logged. -/
def logThreshold (s : Surroundings) : Except SettingError Nat :=
  let setting := ofString "LSON_LOG_LEVEL"
  let name := ((s.setting? setting).getD (ofString "WARNING")).trim.upper
  match Severity.threshold? name with
  | some number => .ok number
  | none => .error (.noLevel setting name)

end Surroundings

end JsonLisp
