import DiceNotation.Text.Unprintable

/-!
# Quoted text

How a message shows a piece of its input: between quotes, with an escape for the quote itself, the
backslash and every character that would be invisible or would change its neighbour.
-/

namespace DiceNotation.Quoted

/-- A code point in the form `\u{1f600}`: lower-case hexadecimal without zeros in front. -/
def codePoint (c : Char) : List Char :=
  ['\\', 'u', '\x7b'] ++ Nat.toDigits 16 c.toNat ++ ['\x7d']

/-- The written form of one character between two `quote`s. -/
def escape (quote c : Char) : List Char :=
  if c = '\x00' then ['\\', '0']
  else if c = '\t' then ['\\', 't']
  else if c = '\n' then ['\\', 'n']
  else if c = '\r' then ['\\', 'r']
  else if c = '\\' || c = quote then ['\\', c]
  else if extendsGrapheme c || isUnprintable c then codePoint c
  else [c]

/-- A text between double quotes. -/
def ofString (text : String) : String :=
  String.ofList ('"' :: text.toList.flatMap (escape '"') ++ ['"'])

/-- A character between single quotes. -/
def ofChar (c : Char) : String :=
  String.ofList ('\x27' :: escape '\x27' c ++ ['\x27'])

example : escape '"' '"' = ['\\', '"'] := by decide +kernel
example : escape '"' 'é' = ['é'] := by decide +kernel
example : escape '"' '\u0301' = ['\\', 'u', '\x7b', '3', '0', '1', '\x7d'] := by decide +kernel

end DiceNotation.Quoted
