import JsonLisp.Text.Basic

/-!
# Integer numerals

The integer numerals of settings: white space around, a sign, and decimal digits of any script
with single underscores between them. `readInt?` is their value.
-/

namespace JsonLisp.Text

/-- The digit zero of every script with decimal digits in Unicode 14; the other nine follow it. -/
def decimalZeros : List CodePoint :=
  [
   0x30, 0x660, 0x6F0, 0x7C0, 0x966, 0x9E6, 0xA66, 0xAE6, 0xB66, 0xBE6, 0xC66, 0xCE6, 0xD66, 0xDE6,
   0xE50, 0xED0, 0xF20, 0x1040, 0x1090, 0x17E0, 0x1810, 0x1946, 0x19D0, 0x1A80, 0x1A90, 0x1B50,
   0x1BB0, 0x1C40, 0x1C50, 0xA620, 0xA8D0, 0xA900, 0xA9D0, 0xA9F0, 0xAA50, 0xABF0, 0xFF10, 0x104A0,
   0x10D30, 0x11066, 0x110F0, 0x11136, 0x111D0, 0x112F0, 0x11450, 0x114D0, 0x11650, 0x116C0,
   0x11730, 0x118E0, 0x11950, 0x11C50, 0x11D50, 0x11DA0, 0x16A60, 0x16AC0, 0x16B50, 0x1D7CE,
   0x1D7D8, 0x1D7E2, 0x1D7EC, 0x1D7F6, 0x1E140, 0x1E2F0, 0x1E950, 0x1FBF0
  ]

def decimalValue? (c : CodePoint) : Option Nat :=
  (decimalZeros.find? fun z => z ≤ c && c ≤ z + 9).map (c - ·)

/-- The digits of a numeral: at least one, single underscores only between two of them. -/
def decimalDigits? : Text → Option (List Nat)
  | [] => none
  | [c] => (decimalValue? c).map fun d => [d]
  | c :: 95 :: rest => do return (← decimalValue? c) :: (← decimalDigits? rest)
  | c :: rest => do return (← decimalValue? c) :: (← decimalDigits? rest)

/-- The longest numeral, in digits, that is converted to or from a text. -/
def maxNumeralDigits : Nat := 4300

/-- The number that a list of digits denotes, most significant first. -/
def ofDigits (ds : List Nat) : Nat := ds.foldl (fun n d => 10 * n + d) 0

def readNat? (t : Text) : Option Nat := do
  let ds ← decimalDigits? t
  if ds.length ≤ maxNumeralDigits then some (ofDigits ds) else none

/-- The blanks that may stand around a numeral: white space without the four information
separators. -/
def isNumeralPadding (c : CodePoint) : Bool := isBlank c && !(28 ≤ c && c ≤ 31)

def readInt? (t : Text) : Option Int :=
  match t.trimBy isNumeralPadding with
  | 45 :: rest => (readNat? rest).map fun n => -(n : Int)
  | 43 :: rest => (readNat? rest).map Int.ofNat
  | digits => (readNat? digits).map Int.ofNat

end JsonLisp.Text
