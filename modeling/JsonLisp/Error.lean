import JsonLisp.Json.Read
import JsonLisp.Json.Write
import JsonLisp.OperationFault
import JsonLisp.Text.Quoted

/-!
# Errors

The causes of a failed evaluation, and the one place where they are worded. A cause that shows a
value carries its text, since the text of a value can itself fail to exist.

## Main definitions

* `Error`: the causes.
* `Error.kind`: the class of errors a cause belongs to.
* `Error.message`: the wording.
* `Error.report`: an error with its kind, after the failures that led to it, for the log.
-/

namespace JsonLisp

open Text (ofString quoted)

/-- The special forms and primitives whose argument count is checked. -/
inductive Counted where
  | quote
  | define
  | conditional
  | function
  | macroDefinition
  | parallelBinding
  | mapping
  | conj
  | cons
  | comparison (name : Text)
deriving DecidableEq

def Counted.message : Counted → Text
  | .quote => ofString "no arguments to quote"
  | .define => ofString "def requires 2 args"
  | .conditional =>
    ofString "invalid if form: expected a test, a then-clause and an optional else-clause"
  | .function => ofString "fn requires at least a parameter list"
  | .macroDefinition => ofString "defmacro requires a name and parameter list"
  | .parallelBinding => ofString "let requires a bindings list"
  | .mapping => ofString "a mapping takes 1 argument, got 0"
  | .conj => ofString "conj: too few arguments"
  | .cons => ofString "cons: wrong # of arguments"
  | .comparison name => name ++ ofString ": 2 or more arguments expected"

/-- The places where a list or a name is demanded and a shown value stands instead. -/
inductive Demanded where
  | definedName
  | macroName
  | globalName
  | parameterList
  | bindingList
  | appendArguments
  | conjFirst
  | consSecond
deriving DecidableEq

def Demanded.message (shown : Text) : Demanded → Text
  | .definedName => ofString "def name must be a string, got " ++ shown
  | .macroName => ofString "Macro name must be a string, got " ++ shown
  | .globalName => ofString "Cannot define " ++ shown ++ ofString ": global names must be strings"
  | .parameterList => ofString "fn parameters must be a list, got " ++ shown
  | .bindingList => ofString "let bindings must be a list, got " ++ shown
  | .appendArguments => ofString "append: every argument must be a list, got " ++ shown
  | .conjFirst => ofString "conj: first argument must be a list, got " ++ shown
  | .consSecond => ofString "cons: second argument must be a list, got " ++ shown

inductive Error where
  /-- A name without a local or global binding. -/
  | unbound (name : Text)
  | alreadyGlobal (name : Text)
  | alreadyMacro (name : Text)
  | argumentCount (form : Counted)
  | unpairedBindings (shown : Text)
  | demanded (what : Demanded) (shown : Text)
  | macroParameters
  /-- More arguments than parameters. -/
  | surplusArguments (shown : Text)
  /-- Fewer arguments than parameters; the unbound rest of the pattern is shown. -/
  | missingArguments (count : Nat) (shown : Text)
  | restWithoutName
  | restWithManyNames
  | restNotName (shown : Text)
  | notDestructurable (received pattern : Text)
  | unsupportedParameter (shown : Text)
  | invalidKey (shown : Text)
  | notAFunction (shown : Text)
  | undefinedBuiltin (name : Text)
  | unsupportedOperands (operator shown : Text)
  | incomparable (operator shown : Text)
  | divisionByZero
  | resultOutOfRange (operator : Text)
  /-- A number that the wire format cannot express. -/
  | noJsonForm (fault : NumberFault)
  | nestedTooDeep (limit : Int)
  | stillExpanding (name : Text) (steps : Int)
  | malformed (fault : Json.Fault Json.Place)
  /-- An integer in a message is too long for a numeral. -/
  | unprintable
  /-- A closure whose form lacks a parameter list. -/
  | noParameterList
  /-- An expansion was asked for an empty list or an empty text. -/
  | noFirstPart
  | noFirstCharacter
  /-- Parts were asked of a value that has none. -/
  | noParts (typeName : Text)
  /-- Something was looked up that cannot be a key. -/
  | unusableKey (typeName : Text)
  /-- A key was looked up in vain: the head of an expansion or an index of a map. -/
  | absentKey (shown : Text)
  /-- The parts of a value that has none were to be counted. -/
  | noLength (typeName : Text)
  /-- The parts of a value that has none were to be gone through. -/
  | notIterable (typeName : Text)
  /-- An error that reports a fault, or that was met while the fault was to be reported. -/
  | reporting (fault : OperationFault) (error : Error)

inductive ErrorKind where
  | unboundName
  | alreadyDefined
  | arity
  | tooManyArguments
  | tooFewArguments
  | type
  | invalidKeyType
  | destructure
  | notAFunction
  | undefinedBuiltin
  | arithmetic
  | recursion
  | expansionTooDeep
  | decode
  | unprintable
  | missingPart
  | unfitValue
  | unknownKey
deriving DecidableEq

/-- Whether an error of this kind is one of the language. The other kinds stem from values that
have no text and from expansions and bindings asked for from outside. -/
def ErrorKind.ofLanguage : ErrorKind → Bool
  | .unprintable | .missingPart | .unfitValue | .unknownKey => false
  | _ => true

namespace Error

def kind : Error → ErrorKind
  | .unbound _ => .unboundName
  | .alreadyGlobal _ => .alreadyDefined
  | .alreadyMacro _ => .alreadyDefined
  | .argumentCount _ => .arity
  | .unpairedBindings _ => .arity
  | .demanded _ _ => .type
  | .macroParameters => .type
  | .surplusArguments _ => .tooManyArguments
  | .missingArguments _ _ => .tooFewArguments
  | .restWithoutName => .destructure
  | .restWithManyNames => .destructure
  | .restNotName _ => .destructure
  | .notDestructurable _ _ => .destructure
  | .unsupportedParameter _ => .destructure
  | .invalidKey _ => .invalidKeyType
  | .notAFunction _ => .notAFunction
  | .undefinedBuiltin _ => .undefinedBuiltin
  | .unsupportedOperands _ _ => .type
  | .incomparable _ _ => .type
  | .divisionByZero => .arithmetic
  | .resultOutOfRange _ => .arithmetic
  | .noJsonForm _ => .arithmetic
  | .nestedTooDeep _ => .recursion
  | .stillExpanding _ _ => .expansionTooDeep
  | .malformed _ => .decode
  | .unprintable => .unprintable
  | .noParameterList => .missingPart
  | .noFirstPart => .missingPart
  | .noFirstCharacter => .missingPart
  | .noParts _ => .unfitValue
  | .unusableKey _ => .unfitValue
  | .absentKey _ => .unknownKey
  | .noLength _ => .unfitValue
  | .notIterable _ => .unfitValue
  | .reporting _ e => e.kind

end Error

/-- The two depth guards: the kinds of error that a larger limit can prevent. -/
def ErrorKind.isGuard : ErrorKind → Bool
  | .recursion | .expansionTooDeep => true
  | _ => false

/-! ### Wording -/

def numeralLimit : Text :=
  ofString "Exceeds the limit (" ++ Text.ofNat Text.maxNumeralDigits ++
    ofString " digits) for integer string conversion"

def numeralAdvice : Text :=
  ofString "; use sys.set_int_max_str_digits() to increase the limit"

def NumberFault.message : NumberFault → Text
  | .notFinite => ofString "Out of range float values are not JSON compliant"
  | .tooLong => numeralLimit ++ numeralAdvice

def Json.Place.message (p : Json.Place) : Text :=
  ofString "line " ++ Text.ofNat p.line ++ ofString " column " ++ Text.ofNat p.column ++
    ofString " (char " ++ Text.ofNat p.offset ++ ofString ")"

def Json.Fault.message : Json.Fault Json.Place → Text
  | .flaw reason place => reason.message ++ ofString ": " ++ place.message
  | .constant name => name ++ ofString " is not a JSON number"
  | .outOfRange literal => ofString "number " ++ literal ++ ofString " is out of range"
  | .longInteger digits =>
    numeralLimit ++ ofString ": value has " ++ Text.ofNat digits ++ ofString " digits" ++
      numeralAdvice

def Error.message : Error → Text
  | .unbound name => ofString "unbound name " ++ quoted name
  | .alreadyGlobal name => quoted name ++ ofString " already defined"
  | .alreadyMacro name => ofString "macro " ++ name ++ ofString " already defined"
  | .argumentCount form => form.message
  | .unpairedBindings shown => ofString "let bindings must be name/value pairs, got " ++ shown
  | .demanded what shown => what.message shown
  | .macroParameters => ofString "Macro parameter list must be a list"
  | .surplusArguments shown => ofString "Too many arguments: " ++ shown
  | .missingArguments count shown =>
    ofString "Too few arguments; missing " ++ Text.ofNat count ++ ofString " parameter(s): " ++
      shown
  | .restWithoutName => ofString "no name after &"
  | .restWithManyNames => ofString "too many names after &"
  | .restNotName shown => ofString "& must be followed by a name, got " ++ shown
  | .notDestructurable received pattern =>
    ofString "cannot destructure a non-list value " ++ received ++ ofString " with pattern " ++
      pattern
  | .unsupportedParameter shown => ofString "unsupported parameter " ++ shown
  | .invalidKey shown => ofString "invalid key type: " ++ shown
  | .notAFunction shown => ofString "not a function " ++ shown
  | .undefinedBuiltin name => ofString "undefined builtin " ++ quoted name
  | .unsupportedOperands operator shown =>
    ofString "unsupported operand types for " ++ operator ++ ofString ": " ++ shown
  | .incomparable operator shown =>
    ofString "cannot compare " ++ shown ++ ofString " with " ++ operator
  | .divisionByZero => ofString "Division by zero"
  | .resultOutOfRange operator => operator ++ ofString ": result out of range"
  | .noJsonForm fault => ofString "number has no JSON form: " ++ fault.message
  | .nestedTooDeep limit =>
    ofString "evaluation nested deeper than " ++ Text.ofInt limit ++ ofString " forms"
  | .stillExpanding name steps =>
    ofString "macro " ++ quoted name ++ ofString " still expanding after " ++ Text.ofInt steps ++
      ofString " steps"
  | .malformed fault => ofString "invalid JSON: " ++ fault.message
  | .unprintable => numeralLimit ++ numeralAdvice
  | .noParameterList => ofString "list index out of range"
  | .noFirstPart => ofString "list index out of range"
  | .noFirstCharacter => ofString "string index out of range"
  | .noParts typeName => Text.quoted typeName ++ ofString " object is not subscriptable"
  | .unusableKey typeName => ofString "unhashable type: " ++ Text.quoted typeName
  | .absentKey shown => shown
  | .noLength typeName => ofString "object of type " ++ Text.quoted typeName ++
      ofString " has no len()"
  | .notIterable typeName => Text.quoted typeName ++ ofString " object is not iterable"
  | .reporting _ e => e.message

/-! ### Reports -/

def ErrorKind.name : ErrorKind → Text
  | .unboundName => ofString "LsonUnboundName"
  | .alreadyDefined => ofString "LsonAlreadyDefined"
  | .arity => ofString "LsonArityError"
  | .tooManyArguments => ofString "LsonTooManyArguments"
  | .tooFewArguments => ofString "LsonTooFewArguments"
  | .type => ofString "LsonTypeError"
  | .invalidKeyType => ofString "LsonInvalidKeyType"
  | .destructure => ofString "LsonDestructureError"
  | .notAFunction => ofString "LsonNotAFunction"
  | .undefinedBuiltin => ofString "LsonUndefinedBuiltin"
  | .arithmetic => ofString "LsonArithmeticError"
  | .recursion => ofString "LsonRecursionError"
  | .expansionTooDeep => ofString "LsonExpansionTooDeep"
  | .decode => ofString "LsonDecodeError"
  | .unprintable => ofString "ValueError"
  | .missingPart => ofString "IndexError"
  | .unfitValue => ofString "TypeError"
  | .unknownKey => ofString "KeyError"

def ErrorKind.fullName (k : ErrorKind) : Text :=
  if k.ofLanguage then ofString "lson.errors." ++ k.name else k.name

/-- The failed look-up, reading or writing that an error restates. -/
def Error.restated? : Error → Option Text
  | .unbound name => some (ofString "KeyError: " ++ quoted name)
  | .malformed (.flaw reason place) =>
    some (ofString "json.decoder.JSONDecodeError: " ++
      Json.Fault.message (.flaw reason place))
  | .malformed (.longInteger digits) =>
    some (ofString "ValueError: " ++ Json.Fault.message (.longInteger digits))
  | .noJsonForm fault => some (ofString "ValueError: " ++ fault.message)
  | _ => none

/-- The failures that led to an error, the earliest first, and at the end the error itself. -/
def Error.failures : Error → List Text
  | .reporting fault e => fault.description :: e.failures
  | e => e.restated?.toList ++ [e.kind.fullName ++ ofString ": " ++ e.message]

def reportHeading : Text := ofString "Traceback (most recent call last):\n"

def reportSeparator : Text :=
  ofString "\n\nDuring handling of the above exception, another exception occurred:\n\n"

/-- Reports of all failures, without the calls that led to them. -/
def Error.report (e : Error) : Text :=
  Text.join reportSeparator (e.failures.map fun failure => reportHeading ++ failure)

end JsonLisp
