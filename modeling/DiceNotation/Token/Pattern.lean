import DiceNotation.Token.Basic
import DiceNotation.Token.Lexeme
import Mathlib.Computability.RegularExpressions

/-!
# Patterns

The lexemes as regular expressions, and a text cut into lexemes by the rule of the longest match.
Nothing here says how a match is found: a regular expression stands for the words it generates.
`Lexes` is the relation that scanning is held to.
-/

namespace DiceNotation

open RegularExpression

namespace Pattern

/-- One of the characters. -/
def oneOf (chars : List Char) : RegularExpression Char :=
  (chars.map char).sum

def optional (pattern : RegularExpression Char) : RegularExpression Char :=
  1 + pattern

/-- A word, given in lower case, in any ASCII case. -/
def word (letters : List Char) : RegularExpression Char :=
  (letters.map fun c => oneOf [c, c.toUpper]).prod

def digit : RegularExpression Char :=
  oneOf ['0', '1', '2', '3', '4', '5', '6', '7', '8', '9']

def number : RegularExpression Char :=
  digit * digit.star

/-- A number without a zero in front. -/
def positive : RegularExpression Char :=
  oneOf ['1', '2', '3', '4', '5', '6', '7', '8', '9'] * digit.star

def delimiter : RegularExpression Char :=
  oneOf ['d', 'D']

/-- Faces that are not written as a number. -/
def namedSides : RegularExpression Char :=
  char '%' + word ['h'] + word ['f'] + word ['m', 'c', 'p', 'a', 't', 'k'] +
    word ['m', 'c', 'p', 'd', 'e', 'f']

def sides : RegularExpression Char :=
  positive + namedSides

def bang : RegularExpression Char :=
  char '!'

def selection : RegularExpression Char :=
  oneOf ['k', 'K', 'd', 'D'] * optional (oneOf ['h', 'H', 'l', 'L']) * positive

def dice : RegularExpression Char :=
  optional positive * delimiter * sides * optional bang * optional selection

/-- A dice literal with a count and named faces, and without a selection. -/
def countedNamed : RegularExpression Char :=
  positive * delimiter * namedSides * optional bang

def separator : RegularExpression Char :=
  oneOf [' ', '\t', '\n', '\r', '\x0c']

def blanks : RegularExpression Char :=
  separator * separator.star

end Pattern

namespace Lexeme

def Kind.pattern : Kind → RegularExpression Char
  | blank => Pattern.blanks
  | dice => Pattern.dice
  | number => Pattern.number
  | operator op => char op.toChar
  | leftParen => char '('
  | rightParen => char ')'
  | unknown => 0

/-- The word is one of those that the pattern of the kind generates. -/
def Kind.Matches (kind : Kind) (word : List Char) : Prop :=
  word ∈ kind.pattern.matches'

/-- Of all non-empty starts of the text that match a pattern, the word is the longest. -/
structure IsLongest (text : List Char) (kind : Kind) (word : List Char) : Prop where
  ne_nil : word ≠ []
  starts : word <+: text
  matched : kind.Matches word
  longest : ∀ other w, w <+: text → Kind.Matches other w → w.length ≤ word.length

/-- No pattern matches at the start of the text. -/
def Unmatched (text : List Char) : Prop :=
  ∀ kind w, w <+: text → Kind.Matches kind w → w = []

/-- A counted literal with named faces and without a selection stands directly before a letter that
begins a selection but completes none. -/
def BreaksOff (word rest : List Char) : Prop :=
  word ∈ Pattern.countedNamed.matches' ∧
  (∃ c ∈ ['k', 'K', 'd', 'D'], rest.head? = some c) ∧
  ¬ ∃ w, w <+: rest ∧ w ∈ Pattern.selection.matches'

/-- The token that a match stands for; `rest` is the text behind it. Numbers stop at the largest
constant. A dice literal that breaks off counts as the largest constant. -/
inductive StandsFor : Kind → List Char → List Char → Option Token → Prop
  | blank (word rest : List Char) : StandsFor .blank word rest none
  | number (word rest : List Char) : StandsFor .number word rest
      (some (.number (Int64.ofNat (min (Nat.ofDigitChars 10 word 0) 9223372036854775807))))
  | operator (op : Operator) (word rest : List Char) :
      StandsFor (.operator op) word rest (some (.operator op))
  | leftParen (word rest : List Char) : StandsFor .leftParen word rest (some .leftParen)
  | rightParen (word rest : List Char) : StandsFor .rightParen word rest (some .rightParen)
  | dice {word rest : List Char} {group : Dice} (hwhole : ¬ BreaksOff word rest)
      (hread : Literal.readDice word = .ok group) :
      StandsFor .dice word rest (some (.dice ⟨String.ofList word, group⟩))
  | brokenDice {word rest : List Char} (hbroken : BreaksOff word rest) :
      StandsFor .dice word rest (some (.number 9223372036854775807))

/-- From left to right, `text` is cut into `words` by longest match up to `stop`, and these stand for
`tokens`. -/
inductive Lexes : List Char → List (List Char) → List Token → List Char → Prop
  | stop (text : List Char) : Lexes text [] [] text
  | next {kind : Kind} {word rest stop : List Char} {token? : Option Token}
      {words : List (List Char)} {tokens : List Token}
      (hlongest : IsLongest (word ++ rest) kind word)
      (hstands : StandsFor kind word rest token?) (hrest : Lexes rest words tokens stop) :
      Lexes (word ++ rest) (word :: words) (token?.toList ++ tokens) stop

end Lexeme

end DiceNotation
