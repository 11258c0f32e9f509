import JsonLisp.Text.Printable

/-!
# Quoted texts

The quoted form of a text in messages. The quotes are single unless the text holds single quotes
and no double ones; what is not printable is written as an escape.
-/

namespace JsonLisp.Text

def singleQuote : CodePoint := 39

def doubleQuote : CodePoint := 34

def backslash : CodePoint := 92

/-- The shortest of the three numeric escapes that can hold the code point. -/
def numericEscape (c : CodePoint) : Text :=
  if c < 0x100 then ofString "\\x" ++ hex 2 c
  else if c < 0x10000 then ofString "\\u" ++ hex 4 c
  else ofString "\\U" ++ hex 8 c

/-- One code point between quotes of the kind `mark`. -/
def quotedChar (mark c : CodePoint) : Text :=
  if c = mark ∨ c = backslash then [backslash, c]
  else if c = 9 then ofString "\\t"
  else if c = 10 then ofString "\\n"
  else if c = 13 then ofString "\\r"
  else if isPrintable c then [c]
  else numericEscape c

def quoteMark (t : Text) : CodePoint :=
  if t.contains singleQuote && !t.contains doubleQuote then doubleQuote else singleQuote

def quoted (t : Text) : Text :=
  let mark := quoteMark t
  mark :: t.flatMap (quotedChar mark) ++ [mark]

end JsonLisp.Text
