import DiceNotation.Dice.Literal
import DiceNotation.Operator

/-!
# Tokens

What an expression consists of, in infix order as it is written or in post-order as it is
evaluated.
-/

namespace DiceNotation

inductive Token where
  | number (value : Int64)
  | dice (literal : Literal)
  | operator (op : Operator)
  | leftParen
  | rightParen
deriving DecidableEq

namespace Token

def render : Token → String
  | number value => String.ofList (Numeral.ofInt64 value)
  | dice literal => literal.text
  | operator op => String.singleton op.toChar
  | leftParen => "("
  | rightParen => ")"

/-- The group of dice that a token is, if it is one. -/
def literal? : Token → Option Literal
  | dice literal => some literal
  | _ => none

/-- Constants and groups of dice are operands. -/
def isOperand : Token → Bool
  | number _ | dice _ => true
  | _ => false

/-- The texts of the tokens with a space between neighbours. -/
def renderAll (tokens : List Token) : String :=
  " ".intercalate (tokens.map render)

end Token

end DiceNotation
