import JsonLisp.Error

/-!
# Journal

The events of a session that a log reports, with their severity, their source and their wording.

## Main definitions

* `Severity`: the five levels, numbered, and their names.
* `Event.logLine`: an event as the log shows it.
-/

namespace JsonLisp

open Text (ofString quoted)

inductive Severity where
  | debug
  | info
  | warning
  | error
  | critical
deriving DecidableEq

namespace Severity

def number : Severity → Nat
  | .debug => 10
  | .info => 20
  | .warning => 30
  | .error => 40
  | .critical => 50

def label : Severity → Text
  | .debug => ofString "DEBUG"
  | .info => ofString "INFO"
  | .warning => ofString "WARNING"
  | .error => ofString "ERROR"
  | .critical => ofString "CRITICAL"

/-- The numbers that thresholds are named by, in capitals. -/
def thresholds : List (Text × Nat) :=
  [(ofString "CRITICAL", 50), (ofString "FATAL", 50), (ofString "ERROR", 40),
    (ofString "WARN", 30), (ofString "WARNING", 30), (ofString "INFO", 20),
    (ofString "DEBUG", 10), (ofString "NOTSET", 0)]

def threshold? (name : Text) : Option Nat := (thresholds.find? (·.1 == name)).map (·.2)

end Severity

inductive Event where
  | frameLimitRaised (limit : Int)
  | definedGlobal (name : Text)
  | definedMacro (name : Text)
  | bootstrapComplete (macros : List Text)
  | loadingPrelude (path : Text)
  | preludeMissing (path : Text)
  | lineFailed (line : Text) (error : Error)

namespace Event

def severity : Event → Severity
  | .loadingPrelude _ => .info
  | .preludeMissing _ => .warning
  | _ => .debug

def source : Event → Text
  | .definedGlobal _ | .definedMacro _ => ofString "Evaluator"
  | .lineFailed _ _ => ofString "Repl"
  | _ => ofString "Interpreter"

/-- Names in quotes between brackets. -/
def nameList (names : List Text) : Text :=
  91 :: Text.join (ofString ", ") (names.map quoted) ++ [93]

def message : Event → Text
  | .frameLimitRaised limit => ofString "recursion limit raised to " ++ Text.ofInt limit
  | .definedGlobal name => ofString "defined global " ++ quoted name
  | .definedMacro name => ofString "defined macro " ++ quoted name
  | .bootstrapComplete macros => ofString "bootstrap complete, macros: " ++ nameList macros
  | .loadingPrelude path => ofString "loading prelude from " ++ path
  | .preludeMissing path => ofString "prelude file not found: " ++ path
  | .lineFailed line error =>
    ofString "evaluation failed for " ++ quoted line ++ [Text.newline] ++ error.report

def logLine (e : Event) : Text :=
  e.severity.label ++ [Text.space] ++ e.source ++ ofString ": " ++ e.message

end Event

end JsonLisp
