import JsonLisp.Text.Numeral
import JsonLisp.Text.Quoted

/-!
# Arguments of the command line

Options may stand before and after the file. A long option may be shortened as long as it stays
unique, and its value follows it or an equals sign; the value of a short option may follow
directly. After `--` everything is a file. Attached to an option, `--` stands for no value.

## Main definitions

* `Arguments.classify`: what one argument is taken for.
* `Arguments.parse`: the options of a command line, or the reason for stopping at it.
-/

namespace JsonLisp

open Text (ofString)

/-- What is given with an option. The marker `--` is no text there either. -/
inductive OptionValue where
  | text (t : Text)
  | marker
deriving DecidableEq

/-- What the arguments ask for. A later option overrides an earlier one. -/
structure Options where
  file : Option Text
  expression : Option OptionValue
  logLevel : Option OptionValue
deriving DecidableEq

inductive Flag where
  | help
  | eval
  | logLevel
  | version
deriving DecidableEq

namespace Flag

def takesValue : Flag → Bool
  | .eval | .logLevel => true
  | .help | .version => false

/-- All spellings of the option, for messages. -/
def label : Flag → Text
  | .help => ofString "-h/--help"
  | .eval => ofString "-e/--eval"
  | .logLevel => ofString "--log-level"
  | .version => ofString "--version"

end Flag

/-- Reasons to stop after the arguments have been read. -/
inductive Stop where
  | help
  | version
  | misuse (message : Text)
deriving DecidableEq

namespace Arguments

def dash : CodePoint := 45

def equalsSign : CodePoint := 61

def spellings : List (Text × Flag) :=
  [(ofString "-h", .help), (ofString "--help", .help), (ofString "-e", .eval),
    (ofString "--eval", .eval), (ofString "--log-level", .logLevel),
    (ofString "--version", .version)]

def flag? (name : Text) : Option Flag := (spellings.find? (·.1 == name)).map (·.2)

/-- One argument: plain, the marker `--`, an option with the text attached to it, after an equals
sign or directly, or an option that does not exist. -/
inductive Item where
  | plain (t : Text)
  | marker
  | option (spelled : Text) (flag : Flag) (attached : Option Text)
  | unknown (spelled : Text)

/-- The parts before and after the first equals sign, if there is one. -/
def splitEquals (t : Text) : Text × Option Text :=
  match t.dropWhile (· != equalsSign) with
  | [] => (t, none)
  | _ :: value => (t.takeWhile (· != equalsSign), some value)

def isDecimal (c : CodePoint) : Bool := (Text.decimalValue? c).isSome

/-- A minus sign before digits, or before a point with digits after it; a line break may follow. -/
def isNegativeNumber (t : Text) : Bool :=
  let body := if t.getLast? = some Text.newline then t.dropLast else t
  match body with
  | 45 :: rest =>
    let afterDigits := rest.dropWhile isDecimal
    match afterDigits with
    | [] => !rest.isEmpty
    | 46 :: fraction => !fraction.isEmpty && fraction.all isDecimal
    | _ => false
  | _ => false

/-- An argument that starts with a dash and names no option. -/
def unmatched (t : Text) : Item :=
  if isNegativeNumber t || t.contains Text.space then .plain t else .unknown t

/-- An abbreviated long option. -/
def abbreviated (t : Text) : Except Stop Item :=
  let (name, value) := splitEquals t
  match spellings.filter fun s => name.isPrefixOf s.1 with
  | [] => .ok (unmatched t)
  | [(_, flag)] => .ok (.option t flag value)
  | several => .error (.misuse (ofString "ambiguous option: " ++ t ++ ofString " could match " ++
      Text.join (ofString ", ") (several.map (·.1))))

def classify (t : Text) : Except Stop Item :=
  match t with
  | 45 :: second :: _ =>
    match flag? t with
    | some flag => .ok (.option t flag none)
    | none =>
      let (name, value) := splitEquals t
      match value, flag? name with
      | some v, some flag => .ok (.option t flag (some v))
      | _, _ =>
        if second = dash then abbreviated t
        else match flag? (t.take 2) with
          | some flag => .ok (.option t flag (some (t.drop 2)))
          | none => .ok (unmatched t)
  | _ => .ok (.plain t)

/-- The arguments in order. What follows the marker `--` is plain. -/
def classifyAll : List Text → Except Stop (List Item)
  | [] => .ok []
  | t :: rest =>
    if t = [dash, dash] then .ok (.marker :: rest.map .plain)
    else return (← classify t) :: (← classifyAll rest)

/-! ### Reading the items -/

/-- The place for a file: free, started by the marker, just filled, or no longer of use. A marker
right after the file belongs to the place too. -/
inductive Place where
  | free
  | marked
  | filled
  | closed
deriving DecidableEq

/-- What has been read so far. Arguments without a place are left over, the latest first. -/
structure Progress where
  options : Options
  place : Place
  leftOver : List Text

def refuse {α : Type} (flag : Flag) (reason : Text) : Except Stop α :=
  .error (.misuse (ofString "argument " ++ flag.label ++ ofString ": " ++ reason))

def missingValue {α : Type} (flag : Flag) : Except Stop α :=
  refuse flag (ofString "expected one argument")

def ignoredValue {α : Type} (flag : Flag) (value : Text) : Except Stop α :=
  refuse flag (ofString "ignored explicit argument " ++ Text.quoted value)

/-- Short options that follow `-h` in one argument. They are looked at for mistakes only, since
help is shown in any case. -/
def checkCluster (valueFollows : Bool) : Text → Except Stop Unit
  | [] => .ok ()
  | c :: rest =>
    match flag? [dash, c] with
    | some flag =>
      if !flag.takesValue then checkCluster valueFollows rest
      else if rest.isEmpty && !valueFollows then missingValue flag
      else .ok ()
    | none => ignoredValue .help (c :: rest)

/-- The effect of an option without a value. -/
def stopFor (valueFollows : Bool) (flag : Flag) (spelled : Text) (attached : Option Text) :
    Except Stop Stop :=
  let reason := if flag = .version then Stop.version else Stop.help
  match attached with
  | none => .ok reason
  | some value =>
    if value.isEmpty || [dash, dash].isPrefixOf spelled then ignoredValue flag value
    else do
      checkCluster valueFollows value
      return reason

def setValue (o : Options) (flag : Flag) (t : Text) : Options :=
  let value : OptionValue := if t = [dash, dash] then .marker else .text t
  match flag with
  | .eval => { o with expression := some value }
  | .logLevel => { o with logLevel := some value }
  | _ => o

def startsPlain : List Item → Bool
  | .plain _ :: _ => true
  | _ => false

def leaveOver (p : Progress) (t : Text) : Progress :=
  { p with place := .closed, leftOver := t :: p.leftOver }

def takeValue (p : Progress) (flag : Flag) (value : Text) : Progress :=
  { p with options := setValue p.options flag value }

def takePlain (p : Progress) (t : Text) : Progress :=
  let fill (next : Place) : Progress :=
    { p with options := { p.options with file := some t }, place := next }
  match p.place with
  | .free => fill .filled
  | .marked => fill .closed
  | .filled | .closed => leaveOver p t

def takeMarker (p : Progress) : Progress :=
  match p.place with
  | .free => { p with place := .marked }
  | .filled => { p with place := .closed }
  | .marked | .closed => leaveOver p [dash, dash]

/-- An option ends the place of a file that has been taken. -/
def endPlace (p : Progress) : Progress :=
  if p.place = .filled then { p with place := .closed } else p

/-- The arguments from left to right. Help and version stop at once. -/
def readItems : List Item → Progress → Except Stop Progress
  | [], p => .ok p
  | .plain t :: rest, p => readItems rest (takePlain p t)
  | .marker :: rest, p => readItems rest (takeMarker p)
  | .unknown t :: rest, p =>
    let p := endPlace p
    readItems rest { p with leftOver := t :: p.leftOver }
  | .option spelled flag attached :: rest, p =>
    if flag.takesValue then
      match attached with
      | some value => readItems rest (takeValue (endPlace p) flag value)
      | none =>
        match rest with
        | .plain value :: others => readItems others (takeValue (endPlace p) flag value)
        | _ => missingValue flag
    else do throw (← stopFor (startsPlain rest) flag spelled attached)

def parse (args : List Text) : Except Stop Options := do
  let items ← classifyAll args
  let p ← readItems items ⟨⟨none, none, none⟩, .free, []⟩
  if p.leftOver.isEmpty then return p.options
  else throw (.misuse (ofString "unrecognized arguments: " ++
    Text.join [Text.space] p.leftOver.reverse))

end Arguments

end JsonLisp
