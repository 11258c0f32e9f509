import JsonLisp.Environment
import JsonLisp.Evaluation.SpecialForm
import JsonLisp.Primitive.Basic

/-!
# Evaluation

A text means its binding, an empty list itself, and any other list is a form: a special form, a
call of a macro or a call of a function. Maps are evaluated entry by entry, and all other values
mean themselves.

Only forms count towards the limit of nesting, and a form is evaluated with one level less than
the form around it. So evaluation is defined by recursion on the levels that are left, and it
ends for every program.

## Main definitions

* `applyValue`: the call of a value with evaluated arguments.
* `expandCall`: the expansion of a macro call until its result is no macro call.
* `evalLevels`: evaluation with a given number of levels, on given primitives.
* `evaluate`: evaluation within the limits of a session.
-/

namespace JsonLisp

/-- What the evaluation of a form rests on: how its parts are evaluated and what the primitives
do. -/
structure Engine where
  eval : Eval
  primitive : Primitive → List Value → Run Value

/-! ### Calls -/

/-- The body is evaluated in the scope of the closure, extended by the bindings. -/
def applyClosure (ev : Eval) (form : List Value) (scope : Environment) (args : List Value) :
    Run Value :=
  match form with
  | _ :: .list params :: body => do
    let frame ← Run.ofExcept (Pattern.bind params args)
    evalSequence ev (scope.extend frame) body
  | _ :: other :: _ => do throw (.demanded .parameterList (← Run.ofExcept other.encode))
  | _ => throw .noParameterList

/-- A map takes a key to the value under it, and to `null` if there is none. -/
def applyMap (entries : List (Text × Value)) : List Value → Except Error Value
  | [] => .error (.argumentCount .mapping)
  | .text key :: _ => .ok ((valueUnder? key entries).getD .null)
  | other :: _ => do throw (.invalidKey (← other.encode))

def applyBuiltin (engine : Engine) (name : Text) (args : List Value) : Run Value :=
  match Primitive.ofName? name with
  | some p => engine.primitive p args
  | none => throw (.undefinedBuiltin name)

def applyValue (engine : Engine) (f : Value) (args : List Value) : Run Value :=
  match f with
  | .map entries => Run.ofExcept (applyMap entries args)
  | .closure _ form scope => applyClosure engine.eval form scope args
  | .builtin name => applyBuiltin engine name args
  | other => do throw (.notAFunction (← Run.ofExcept other.encode))

/-! ### Macros -/

/-- The name and the arguments of a macro call. The names of special forms call no macros. -/
def macroCall? (macros : Table) : Value → Option (Text × List Value)
  | .list (.text name :: args) =>
    if (SpecialForm.ofName? name).isNone && macros.contains name then some (name, args) else none
  | _ => none

/-- One application of a transformer to unevaluated arguments. -/
def expandOnce (engine : Engine) (name : Text) (args : List Value) : Run Value := do
  match (← get).macros.find? name with
  | some transformer => applyValue engine transformer args
  | none => throw (.absentKey (Text.quoted name))

/-- Up to `steps` more expansions of a form; `limit` is only named in the error. -/
def expandFurther (engine : Engine) (limit : Int) : Nat → Value → Run Value
  | 0, form => do
    match macroCall? (← get).macros form with
    | some (name, _) => throw (.stillExpanding name limit)
    | none => return form
  | steps + 1, form => do
    match macroCall? (← get).macros form with
    | some (name, args) =>
      let next ← expandOnce engine name args
      expandFurther engine limit steps next
    | none => return form

/-- The first expansion is made in any case, the others as long as the limit allows. -/
def expandCall (engine : Engine) (limit : Int) (name : Text) (args : List Value) :
    Run Value := do
  let form ← expandOnce engine name args
  expandFurther engine (max limit 1) (limit - 1).toNat form

/-! ### Forms -/

def evalArguments (ev : Eval) (env : Environment) : List Value → Run (List Value)
  | [] => pure []
  | form :: rest => do
    let value ← ev form env
    let values ← evalArguments ev env rest
    return value :: values

/-- The head is evaluated before the arguments, and these from left to right. -/
def evalCall (engine : Engine) (head : Value) (args : List Value) (env : Environment) :
    Run Value := do
  let f ← engine.eval head env
  let values ← evalArguments engine.eval env args
  applyValue engine f values

/-- A name at the head of a form that names no special form. -/
def evalNamed (limits : Limits) (engine : Engine) (name : Text) (args : List Value)
    (env : Environment) : Run Value := do
  if (← get).macros.contains name then
    let expansion ← expandCall engine limits.expansion name args
    engine.eval expansion env
  else evalCall engine (.text name) args env

def evalForm (limits : Limits) (engine : Engine) (head : Value) (args : List Value)
    (env : Environment) : Run Value :=
  match head with
  | .text name =>
    match SpecialForm.ofName? name with
    | some form => form.run engine.eval env args
    | none => evalNamed limits engine name args env
  | other => evalCall engine other args env

/-- The nearest local binding of a name, or else the global one. -/
def lookup (name : Text) (env : Environment) : Run Value :=
  match env.find? name with
  | some value => pure value
  | none => do Run.ofExcept ((← get).globals.lookup name)

mutual

/-- Evaluation, where `onForm` evaluates the forms. -/
def evalWith (onForm : Value → List Value → Environment → Run Value) :
    Value → Environment → Run Value
  | .text name, env => lookup name env
  | .list (head :: args), env => onForm head args env
  | .map entries, env => do return .map (← evalEntries onForm entries env)
  | other, _ => pure other

def evalEntries (onForm : Value → List Value → Environment → Run Value) :
    List (Text × Value) → Environment → Run (List (Text × Value))
  | [], _ => pure []
  | (key, v) :: rest, env => do
    let value ← evalWith onForm v env
    let entries ← evalEntries onForm rest env
    return (key, value) :: entries

end

/-- Evaluation with a number of levels left for forms, on given primitives. -/
def evalLevels (primitive : Primitive → List Value → Run Value) (limits : Limits) : Nat → Eval
  | 0 => evalWith fun _ _ _ => throw (.nestedTooDeep limits.evaluation)
  | levels + 1 => evalWith fun head args env =>
    Run.nested (evalForm limits ⟨evalLevels primitive limits levels, primitive⟩ head args env)

/-- The levels left in a state. -/
def levelsLeft (limits : Limits) (s : State) : Nat := (limits.evaluation - s.depth).toNat

def evaluate (limits : Limits) : Eval := fun v env s =>
  evalLevels Primitive.run limits (levelsLeft limits s) v env s

/-- The engine of a session. -/
def engine (limits : Limits) : Engine := ⟨evaluate limits, Primitive.run⟩

end JsonLisp
