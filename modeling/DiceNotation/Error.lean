import DiceNotation.Dice.Literal
import DiceNotation.Operator

/-!
# Errors

Why a text or a list of tokens has no result. Every cause has one message and one class.
-/

namespace DiceNotation

/-- Why a random source gives no face. A source may have a reason of its own. -/
inductive SourceError where
  | noSides
  | exhausted
  | other (message : String)
deriving DecidableEq

def SourceError.message : SourceError → String
  | noSides => "dice must have at least 1 side"
  | exhausted => "scripted roller ran out of draws"
  | other message => message

inductive Error where
  | blankInput
  | source (cause : SourceError)
  | unexpectedChar (found : Char) (position : Nat)
  | mismatchedParens
  | diceCount (count max : Nat)
  | diceSides (sides max : Nat)
  | constant (value max : Int64)
  | overflow
  | zeroDivision
  | missingOperand (op : Operator)
  | strayParen
  | notSingleValue
  | noRule (literal : String)
  | unreadableLiteral (literal : String) (cause : LiteralError)
  | noPairs
  | noSymbols
deriving DecidableEq

namespace Error

inductive Kind where
  | input
  | grammar
  | limit
  | meaning
  | internal
deriving DecidableEq

def kind : Error → Kind
  | blankInput | source _ => .input
  | unexpectedChar _ _ | mismatchedParens => .grammar
  | diceCount _ _ | diceSides _ _ | constant _ _ | overflow => .limit
  | zeroDivision | missingOperand _ | strayParen | notSingleValue => .meaning
  | noRule _ | unreadableLiteral _ _ | noPairs | noSymbols => .internal

/-- A quantity that exceeds its ceiling. -/
def exceeds (what : String) (value max : List Char) : String :=
  what ++ " (" ++ String.ofList value ++ ") exceeds limit of " ++ String.ofList max

def message : Error → String
  | blankInput => "input must be a non-empty string"
  | source cause => cause.message
  | unexpectedChar found position =>
    "unexpected character at index " ++ String.ofList (Numeral.ofNat position) ++ ": " ++
      Quoted.ofChar found
  | mismatchedParens => "mismatched parentheses"
  | diceCount count max => exceeds "dice count" (Numeral.ofNat count) (Numeral.ofNat max)
  | diceSides sides max => exceeds "dice sides" (Numeral.ofNat sides) (Numeral.ofNat max)
  | constant value max => exceeds "modifier" (Numeral.ofInt64 value) (Numeral.ofInt64 max)
  | overflow => "arithmetic overflow"
  | zeroDivision => "cannot divide by zero"
  | missingOperand op =>
    "malformed expression: operator '" ++ String.singleton op.toChar ++ "' is missing an operand"
  | strayParen => "malformed expression: parenthesis in postfix sequence"
  | notSingleValue => "malformed expression: expression does not reduce to a single value"
  | noRule literal => "internal error: no dice rule can handle " ++ Quoted.ofString literal
  | unreadableLiteral literal cause =>
    "internal error: failed to re-parse dice literal " ++ Quoted.ofString literal ++ ": " ++
      cause.message
  | noPairs => "internal error: duality roll produced no pairs"
  | noSymbols => "internal error: faction roll produced no symbols"

end Error

end DiceNotation
