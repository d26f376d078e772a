import DiceNotation.Error
import DiceNotation.Token.Basic
import DiceNotation.Token.Lexeme

/-!
# Scanning

`Token.scan` cuts a text into lexemes from left to right and reads each one. It fails at the first
character that starts no lexeme and reports how many characters stand before it.
-/

namespace DiceNotation

namespace Lexeme

def largestConstant : Nat := 9223372036854775807

/-- The value of a number; beyond the largest constant, or without a value, it is the largest. -/
def constant (text : List Char) : Int64 :=
  match Numeral.read? text with
  | some n => Int64.ofNat (min n largestConstant)
  | none => Int64.ofNat largestConstant

/-- The token that a lexeme stands for; blanks stand for none. -/
def token? (lexeme : Lexeme) (position : Nat) : Except Error (Option Token) :=
  match lexeme.kind with
  | .blank => .ok none
  | .number => .ok (some (.number (constant lexeme.text)))
  | .operator op => .ok (some (.operator op))
  | .leftParen => .ok (some .leftParen)
  | .rightParen => .ok (some .rightParen)
  | .unknown => .error (.unexpectedChar (lexeme.text.headD '\x00') position)
  | .dice =>
    let text := String.ofList lexeme.text
    match Literal.read text with
    | .ok literal => .ok (some (.dice literal))
    | .error cause => .error (.unreadableLiteral text cause)

end Lexeme

namespace Token

/-- The tokens of a text that starts at the given position of the whole. -/
def scanFrom (position : Nat) : List Char → Except Error (List Token)
  | [] => .ok []
  | c :: rest => do
    let lexeme := Lexeme.first c rest
    let token? ← lexeme.token? position
    let tokens ← scanFrom (position + lexeme.text.length) (rest.drop (lexeme.text.length - 1))
    return token?.toList ++ tokens
termination_by text => text.length
decreasing_by
  simp only [List.length_cons, List.length_drop]
  omega

def scan (text : String) : Except Error (List Token) :=
  scanFrom 0 text.toList

end Token

end DiceNotation
