import JsonLisp.Text.Basic

/-!
# Faults of operations

Why one step of an operator or of a comparison has no result. The errors of the language show the
operator with all its arguments; reports of errors show the fault as well.

## Main definitions

* `OperationFault`: the faults.
* `OperationFault.description`: their wording in reports.
-/

namespace JsonLisp

open Text (ofString)

/-- Two operands that do not go together, by the names of their types. -/
inductive Clash where
  | operands (symbol left right : Text)
  /-- Something else is added to a text or a list. -/
  | joining (whole other : Text)
  /-- A text or a list is multiplied by something that is no integer. -/
  | repetition (factor : Text)
  | order (symbol left right : Text)
deriving DecidableEq

/-- What is too large. -/
inductive Excess where
  /-- An integer that meets a floating point number. -/
  | operand
  | quotient
  /-- A number of copies. -/
  | count
  /-- A text of copies. -/
  | length
deriving DecidableEq

inductive OperationFault where
  | clash (c : Clash)
  | zeroDivision (ofFloats : Bool)
  | outOfRange (what : Excess)
deriving DecidableEq

namespace OperationFault

/-- A name between single quotes. -/
def named (name : Text) : Text := ofString "'" ++ name ++ ofString "'"

def clashDescription : Clash → Text
  | .operands symbol left right =>
    ofString "unsupported operand type(s) for " ++ symbol ++ ofString ": " ++ named left ++
      ofString " and " ++ named right
  | .joining whole other =>
    ofString "can only concatenate " ++ whole ++ ofString " (not \"" ++ other ++
      ofString "\") to " ++ whole
  | .repetition factor =>
    ofString "can't multiply sequence by non-int of type " ++ named factor
  | .order symbol left right =>
    named symbol ++ ofString " not supported between instances of " ++ named left ++
      ofString " and " ++ named right

def excessDescription : Excess → Text
  | .operand => ofString "int too large to convert to float"
  | .quotient => ofString "integer division result too large for a float"
  | .count => ofString "cannot fit 'int' into an index-sized integer"
  | .length => ofString "repeated string is too long"

def description : OperationFault → Text
  | .clash c => ofString "TypeError: " ++ clashDescription c
  | .zeroDivision false => ofString "ZeroDivisionError: division by zero"
  | .zeroDivision true => ofString "ZeroDivisionError: float division by zero"
  | .outOfRange what => ofString "OverflowError: " ++ excessDescription what

end OperationFault

end JsonLisp
