import DiceNotation.Dice.Literal
import DiceNotation.Operator

/-!
# Lexemes

`Lexeme.first` cuts the longest lexeme off the front of a text. A dice literal has no zero in front
of a number, so `01d6` is the number `01` and the literal `d6`; a part that cannot be completed
(the `kh0` of `2d6kh0`) is left to the next lexeme. A character that starts no lexeme stands alone
as `unknown`.
-/

namespace DiceNotation

namespace Lexeme

inductive Kind where
  | blank
  | dice
  | number
  | operator (op : Operator)
  | leftParen
  | rightParen
  | unknown
deriving DecidableEq

def Kind.describe : Kind → String
  | blank => "<blank>"
  | dice => "<dice>"
  | number => "<number>"
  | operator op => String.ofList ['\x27', op.toChar, '\x27']
  | leftParen => "'('"
  | rightParen => "')'"
  | unknown => "<error>"

def Kind.operator? : Kind → Option Operator
  | operator op => some op
  | _ => none

end Lexeme

structure Lexeme where
  kind : Lexeme.Kind
  text : List Char
deriving DecidableEq

namespace Lexeme

/-- The blanks between lexemes: space, tab, line feed, carriage return, form feed. -/
def isSeparator (c : Char) : Bool :=
  c == ' ' || c == '\t' || c == '\n' || c == '\r' || c == '\x0c'

/-- The digits at the start of a text, unless the first is zero. -/
def positiveRun : List Char → List Char
  | [] => []
  | c :: rest => if c.isDigit && c != '0' then c :: rest.takeWhile Char.isDigit else []

/-- The tag at the start of a text, in the case it is written. -/
def tagRun (text : List Char) : List Char :=
  match DiceKind.ofStart? text with
  | some kind => text.take kind.tag.length
  | none => []

def percentRun : List Char → List Char
  | '%' :: _ => ['%']
  | _ => []

/-- The faces at the start of a text. The three forms start differently, so one at most is there. -/
def sidesRun (text : List Char) : List Char :=
  positiveRun text ++ percentRun text ++ tagRun text

def bangRun : List Char → List Char
  | '!' :: _ => ['!']
  | _ => []

def directionRun : List Char → List Char
  | [] => []
  | c :: _ => if (Literal.readDirection? c).isSome then [c] else []

/-- The selection at the start of a text; a letter without digits is none. -/
def selectionRun : List Char → List Char
  | [] => []
  | c :: rest =>
    let direction := directionRun rest
    let digits := positiveRun (rest.drop direction.length)
    if (Literal.readMode? c).isSome && !digits.isEmpty then c :: direction ++ digits else []

/-- The parts of a dice literal as they are written. -/
structure DiceParts where
  count : List Char
  delimiter : Char
  sides : List Char
  bang : List Char
  selection : List Char

namespace DiceParts

def text (parts : DiceParts) : List Char :=
  parts.count ++ parts.delimiter :: parts.sides ++ parts.bang ++ parts.selection

/-- The longest dice literal at the start of a text. -/
def first? (text : List Char) : Option DiceParts :=
  let count := positiveRun text
  match text.drop count.length with
  | [] => none
  | delimiter :: afterDelimiter =>
    let sides := sidesRun afterDelimiter
    if !isDelimiter delimiter || sides.isEmpty then none
    else
      let bang := bangRun (afterDelimiter.drop sides.length)
      let selection := selectionRun (afterDelimiter.drop (sides ++ bang).length)
      some { count, delimiter, sides, bang, selection }

/-- Whether the literal stops short of a selection that the character behind it begins: a count is
written, the faces are not digits, and a letter of a selection follows without completing one. -/
def breaksOff (parts : DiceParts) (next? : Option Char) : Bool :=
  !parts.count.isEmpty && !parts.sides.all Char.isDigit && parts.selection.isEmpty &&
    (next?.bind Literal.readMode?).isSome

end DiceParts

/-- The dice literal at the start of a text. One that breaks off counts as a number, and is then
one without a value. -/
def dice? (text : List Char) : Option Lexeme :=
  (DiceParts.first? text).map fun parts =>
    let next? := (text.drop parts.text.length).head?
    ⟨if parts.breaksOff next? then .number else .dice, parts.text⟩

/-- The lexeme at the start of a text that is no dice literal. -/
def simple (c : Char) (rest : List Char) : Lexeme :=
  if isSeparator c then ⟨.blank, c :: rest.takeWhile isSeparator⟩
  else if c.isDigit then ⟨.number, c :: rest.takeWhile Char.isDigit⟩
  else if c = '(' then ⟨.leftParen, [c]⟩
  else if c = ')' then ⟨.rightParen, [c]⟩
  else
    match Operator.ofChar? c with
    | some op => ⟨.operator op, [c]⟩
    | none => ⟨.unknown, [c]⟩

/-- The longest lexeme at the start of a text that starts with `c`. -/
def first (c : Char) (rest : List Char) : Lexeme :=
  (dice? (c :: rest)).getD (simple c rest)

example : first '2' "d6kh0".toList = ⟨.dice, "2d6".toList⟩ := by decide +kernel
example : first '2' "dFdF".toList = ⟨.number, "2dF".toList⟩ := by decide +kernel
example : first '0' "1d6".toList = ⟨.number, "01".toList⟩ := by decide +kernel

end Lexeme

end DiceNotation
