/-!
# Texts

A text is a list of code points. A surrogate code point may stand alone in it, which `Char` does
not allow, so names, messages and program texts are all of this type.

## Main definitions

* `Text.ofString`: the code points of a string.
* `Text.ofNat`, `Text.ofInt`: decimal numerals, without leading zeros.
* `Text.isBlank`, `Text.trim`: white space and its removal at both ends.
-/

namespace JsonLisp

abbrev CodePoint := Nat

abbrev Text := List CodePoint

namespace Text

def ofString (s : String) : Text := s.toList.map Char.toNat

/-- Code points outside the range of `Char` become the replacement character. -/
def toString (t : Text) : String :=
  String.ofList (t.map fun c => if c.isValidChar then Char.ofNat c else Char.ofNat 0xFFFD)

/-- The number of bytes that a code point takes in UTF-8. -/
def codePointSize (c : CodePoint) : Nat :=
  if c < 0x80 then 1 else if c < 0x800 then 2 else if c < 0x10000 then 3 else 4

/-- The number of bytes that a text takes in UTF-8. -/
def utf8Size (t : Text) : Nat := t.foldl (fun size c => size + codePointSize c) 0

def newline : CodePoint := 10

def space : CodePoint := 32

/-! ### Numerals -/

/-- The decimal digits of `n` in front of `tail`. The first argument bounds the number of digits. -/
def digitsOnto : Nat → Nat → Text → Text
  | 0, _, tail => tail
  | bound + 1, n, tail =>
    if n < 10 then (48 + n) :: tail else digitsOnto bound (n / 10) ((48 + n % 10) :: tail)

/-- The decimal numeral of a natural number. It has at most one digit more than there are bits. -/
def ofNat (n : Nat) : Text := digitsOnto (n.log2 + 1) n []

def ofInt : Int → Text
  | .ofNat n => ofNat n
  | .negSucc n => 45 :: ofNat (n + 1)

def hexDigit (n : Nat) : CodePoint := if n < 10 then 48 + n else 87 + n

/-- The last `width` hexadecimal digits of `n`, in lower case. -/
def hex : Nat → Nat → Text
  | 0, _ => []
  | width + 1, n => hex width (n / 16) ++ [hexDigit (n % 16)]

def isDigit (c : CodePoint) : Bool := 48 ≤ c && c ≤ 57

/-! ### White space -/

/-- White space: the separators of Unicode and the control characters that act as such. -/
def isBlank (c : CodePoint) : Bool :=
  (9 ≤ c && c ≤ 13) || (28 ≤ c && c ≤ 32) || c == 0x85 || c == 0xA0 || c == 0x1680 ||
  (0x2000 ≤ c && c ≤ 0x200A) || c == 0x2028 || c == 0x2029 || c == 0x202F || c == 0x205F ||
  c == 0x3000

/-- Drops the leading and the trailing code points that satisfy `p`. -/
def trimBy (p : CodePoint → Bool) (t : Text) : Text :=
  ((t.dropWhile p).reverse.dropWhile p).reverse

def trim (t : Text) : Text := t.trimBy isBlank

def isBlankText (t : Text) : Bool := t.all isBlank

/-! ### Joining and cutting -/

/-- The texts in order with `separator` between neighbours. -/
def join (separator : Text) (ts : List Text) : Text := separator.intercalate ts

/-- The pieces between the occurrences of `c`; there is always at least one. -/
def splitOn (c : CodePoint) : Text → List Text
  | [] => [[]]
  | x :: xs =>
    if x = c then [] :: splitOn c xs
    else match splitOn c xs with
      | [] => [[x]]
      | piece :: rest => (x :: piece) :: rest

/-- Every line break, also a carriage return alone or before a line feed, becomes a line feed. -/
def unifyNewlines : Text → Text
  | 13 :: 10 :: rest => 10 :: unifyNewlines rest
  | 13 :: rest => 10 :: unifyNewlines rest
  | c :: rest => c :: unifyNewlines rest
  | [] => []

end Text

end JsonLisp
