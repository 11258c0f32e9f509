import JsonLisp.Value.Display

/-!
# Local scopes

An environment is a chain of frames. A name means its first binding in the nearest frame that has
one.

## Main definitions

* `Environment.extend`, `Environment.items`, `Environment.find?`.
* `Environment.summary`, `Environment.display`: the texts of an environment.
-/

namespace JsonLisp

def Frame.find? (name : Text) (frame : Frame) : Option Value := valueUnder? name frame

namespace Environment

/-- One frame without bindings. -/
def root : Environment := [[]]

def extend (env : Environment) (frame : Frame) : Environment := frame :: env

/-- All bindings, nearest first, also those that are shadowed. -/
def items (env : Environment) : List (Text × Value) := env.flatten

def find? (name : Text) : Environment → Option Value
  | [] => none
  | frame :: outer =>
    match Frame.find? name frame with
    | some v => some v
    | none => find? name outer

theorem find?_eq_items (name : Text) (env : Environment) :
    env.find? name = valueUnder? name env.items := by
  induction env with
  | nil => rfl
  | cons frame outer ih =>
    simp only [find?, items, List.flatten_cons, Frame.find?, valueUnder?, List.find?_append]
    cases h : List.find? (fun x => x.1 == name) frame with
    | none => simpa [valueUnder?, items] using ih
    | some p => simp

/-! ### Texts -/

open Text (ofString)

def displayBinding : Text × Value → Except Error Text
  | (name, v) => return name ++ ofString ": " ++ (← v.display)

def displayFrame (frame : Frame) : Except Error Text := do
  return 123 :: Text.join Value.separator (← frame.mapM displayBinding) ++ [125]

/-- The nearest frame, and a sign that there are more. -/
def summary : Environment → Except Error Text
  | [] => displayFrame []
  | [frame] => displayFrame frame
  | frame :: _ => return (← displayFrame frame) ++ ofString " -> ..."

/-- All frames, nearest first. -/
def display (env : Environment) : Except Error Text := do
  let frames ← env.mapM displayFrame
  return ofString "<Environment chain: " ++ Text.join (ofString " -> ") frames ++ ofString ">"

end Environment

end JsonLisp
