import JsonLisp.Value.Display

/-!
# Parameter patterns

A pattern is a list of names and nested patterns. A name takes any argument, a nested pattern
takes a list that it matches, and `&` before the last name lets that name take all arguments that
are left.

## Main definitions

* `Pattern.bind`: the bindings of a pattern for a list of arguments, from left to right.
* `Pattern.bindValues`: the same for any two values in their places.
-/

namespace JsonLisp.Pattern

def restMarker : Text := Text.ofString "&"

/-- What follows the rest marker takes all remaining arguments. -/
def bindRest (names args : List Value) : Except Error Frame :=
  match names with
  | [] => .error .restWithoutName
  | [.text name] => .ok [(name, .list args)]
  | [other] => do throw (.restNotName (← other.display))
  | _ :: _ :: _ => .error .restWithManyNames

def missing (params : List Value) : Except Error Frame := do
  throw (.missingArguments params.length (← Value.displayList params))

def notDestructurable (received : Value) (pattern : List Value) : Except Error Frame := do
  throw (.notDestructurable (← received.display) (← Value.displayList pattern))

def isRestMarker : Value → Bool
  | .text name => name == restMarker
  | _ => false

mutual

/-- The bindings of a list of parameters. A nested pattern without an argument is matched against
`null`, which it refuses. -/
def bind : List Value → List Value → Except Error Frame
  | [], [] => .ok []
  | [], surplus => do throw (.surplusArguments (← Value.displayList surplus))
  | param :: params, args =>
    if isRestMarker param then bindRest params args
    else match args with
      | arg :: rest => return (← bindOne param arg) ++ (← bind params rest)
      | [] =>
        match param with
        | .text _ => missing (param :: params)
        | other => bindOne other .null

/-- The bindings of one parameter that is no rest marker. -/
def bindOne : Value → Value → Except Error Frame
  | .text name, arg => .ok [(name, arg)]
  | .list pattern, .list items => bind pattern items
  | .list pattern, received => notDestructurable received pattern
  | other, _ => do throw (.unsupportedParameter (← other.display))

end

/-! ### Any two values

Texts take part as the lists of their letters. The keys of a map can be gone through, and its
entries be counted, but there is no part of a map from an index on.
-/

def letters (t : Text) : List Value := t.map fun c => .text [c]

def noSlice : Error := .unusableKey (Text.ofString "slice")

/-- The keys of a map as parameters. -/
def bindKeys : List Text → List Value → Except Error Frame
  | [], surplus => bind [] surplus
  | key :: keys, args =>
    if key = restMarker then .error noSlice
    else match args with
      | [] => .error noSlice
      | arg :: rest => return (key, arg) :: (← bindKeys keys rest)

/-- Binding fails at the first parameter, or for want of one, if the arguments are neither a list
nor a text. -/
def refuseArguments (params : List Value) (args : Value) : Except Error Frame :=
  let unsliced : Error := match args with
    | .map _ => noSlice
    | other => .noParts other.typeName
  let uncounted : Error := match args with
    | .map _ => .absentKey (Text.ofString "0")
    | other => .noLength other.typeName
  match params, args with
  | [], .map [] => .ok []
  | [], .map _ => .error noSlice
  | [], _ => .error uncounted
  | param :: names, _ =>
    if isRestMarker param then do
      let _ ← bindRest names []
      throw unsliced
    else match param, args with
      | .text _, .map [] | .list _, .map [] => bind params []
      | .text _, _ | .list _, _ => .error uncounted
      | other, _ => bindOne other .null

def bindValues (params args : Value) : Except Error Frame :=
  match params, args with
  | .list ps, .list items => bind ps items
  | .list ps, .text t => bind ps (letters t)
  | .list ps, other => refuseArguments ps other
  | .text s, .list items => bind (letters s) items
  | .text s, .text t => bind (letters s) (letters t)
  | .text s, other => refuseArguments (letters s) other
  | .map entries, .list items => bindKeys (entries.map (·.1)) items
  | .map entries, .text t => bindKeys (entries.map (·.1)) (letters t)
  | .map [], other => refuseArguments [] other
  | .map ((key, _) :: _), other =>
    match other with
    | .map [] => .error noSlice
    | _ => if key = restMarker then .error noSlice else refuseArguments [.text key] other
  | other, _ => .error (.notIterable other.typeName)

end JsonLisp.Pattern
