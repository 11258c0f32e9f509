import JsonLisp.Evaluation.State
import JsonLisp.Pattern

/-!
# Special forms

The forms whose arguments are not simply evaluated. A special form is recognised by its head
alone, before macros and before any binding of that name. How its parts are evaluated is a
parameter.

## Main definitions

* `SpecialForm.ofName?`: the special form of a head.
* `SpecialForm.run`: its evaluation.
* `evalSequence`: forms in order, with the last value as the result.
-/

namespace JsonLisp

open Text (ofString)

/-- A way to evaluate a form in an environment. -/
abbrev Eval := Value → Environment → Run Value

inductive SpecialForm where
  | quote
  | define
  | conditional
  | function
  | macroDefinition
  | sequence
deriving DecidableEq

def evalSequence (ev : Eval) (env : Environment) : List Value → Run Value
  | [] => pure .null
  | [form] => ev form env
  | form :: rest => do
    let _ ← ev form env
    evalSequence ev env rest

namespace SpecialForm

def fnName : Text := ofString "fn"

def named : List (Text × SpecialForm) :=
  [(ofString "quote", .quote), ([], .quote), (ofString "def", .define),
    (ofString "if", .conditional), (fnName, .function), (ofString "defmacro", .macroDefinition),
    (ofString "do", .sequence)]

def ofName? (name : Text) : Option SpecialForm := (named.find? (·.1 == name)).map (·.2)

/-- One argument is returned unevaluated, several as a list. -/
def runQuote : List Value → Run Value
  | [] => throw (.argumentCount .quote)
  | [form] => pure form
  | forms => pure (.list forms)

/-- A name that is taken is refused before its value is evaluated. -/
def runDefine (ev : Eval) (env : Environment) : List Value → Run Value
  | [.text name, form] => do
    if (← get).globals.contains name then throw (.alreadyGlobal name)
    let value ← ev form env
    Run.defineGlobal name value
    return value
  | [other, _] => do throw (.demanded .definedName (← Run.ofExcept other.display))
  | _ => throw (.argumentCount .define)

def runConditional (ev : Eval) (env : Environment) : List Value → Run Value
  | [test, consequent] => do
    if (← ev test env).isTrue then ev consequent env else return .null
  | [test, consequent, alternative] => do
    if (← ev test env).isTrue then ev consequent env else ev alternative env
  | _ => throw (.argumentCount .conditional)

/-- The closure keeps its form as written; nothing in it is evaluated. -/
def runFunction (env : Environment) : List Value → Run Value
  | [] => throw (.argumentCount .function)
  | parts => Run.newClosure (.text fnName :: parts) env

/-- The transformer is the value of the `fn` form of the parameters and the body. -/
def runMacroDefinition (ev : Eval) (env : Environment) : List Value → Run Value
  | .text name :: .list params :: body => do
    if (← get).macros.contains name then throw (.alreadyMacro name)
    let transformer ← ev (.list (.text fnName :: .list params :: body)) env
    Run.defineMacro name transformer
    return .text name
  | .text _ :: _ :: _ => throw .macroParameters
  | other :: _ :: _ => do throw (.demanded .macroName (← Run.ofExcept other.display))
  | _ => throw (.argumentCount .macroDefinition)

def run (ev : Eval) (form : SpecialForm) (env : Environment) (parts : List Value) : Run Value :=
  match form with
  | .quote => runQuote parts
  | .define => runDefine ev env parts
  | .conditional => runConditional ev env parts
  | .function => runFunction env parts
  | .macroDefinition => runMacroDefinition ev env parts
  | .sequence => evalSequence ev env parts

end SpecialForm

end JsonLisp
