import DiceNotation.Error
import DiceNotation.Token.Basic

/-!
# From infix to post-order

One pass over the tokens with a stack of operators and open parentheses that wait for their right
operand or their partner. Operands pass through at once. An operator waits until one that binds no
tighter, a closing parenthesis or the end follows it. Only the parentheses are checked here: a list
that lacks operands or operators is passed on as it stands.
-/

namespace DiceNotation.PostOrder

inductive Pending where
  | operator (op : Operator)
  | paren
deriving DecidableEq

/-- The operators on top of the stack, down to a parenthesis, that bind at least as tightly as the
incoming one, and what stays. -/
def release (incoming : Operator) : List Pending → List Operator × List Pending
  | .operator top :: rest =>
    if top.precedence < incoming.precedence then ([], .operator top :: rest)
    else
      let (released, kept) := release incoming rest
      (top :: released, kept)
  | stack => ([], stack)

/-- The operators down to the innermost open parenthesis, and what is below it. -/
def close? : List Pending → Option (List Operator × List Pending)
  | [] => none
  | .paren :: rest => some ([], rest)
  | .operator top :: rest => (close? rest).map fun (closed, below) => (top :: closed, below)

/-- The whole stack as operators; an open parenthesis has no partner. -/
def flush? : List Pending → Option (List Operator)
  | [] => some []
  | .paren :: _ => none
  | .operator top :: rest => (flush? rest).map (top :: ·)

/-- The output that follows when `stack` waits and these tokens are still to come. -/
def convert? (stack : List Pending) : List Token → Option (List Token)
  | [] => (flush? stack).map (·.map .operator)
  | .number value :: tokens => (convert? stack tokens).map (.number value :: ·)
  | .dice literal :: tokens => (convert? stack tokens).map (.dice literal :: ·)
  | .operator op :: tokens =>
    let (released, kept) := release op stack
    (convert? (.operator op :: kept) tokens).map (released.map .operator ++ ·)
  | .leftParen :: tokens => convert? (.paren :: stack) tokens
  | .rightParen :: tokens =>
    match close? stack with
    | none => none
    | some (closed, below) => (convert? below tokens).map (closed.map .operator ++ ·)

def ofInfix (tokens : List Token) : Except Error (List Token) :=
  match convert? [] tokens with
  | none => .error .mismatchedParens
  | some output => .ok output

example :
    convert? [] [.number 1, .operator .sub, .number 2, .operator .mul, .number 3, .operator .sub,
      .number 4] =
    some [.number 1, .number 2, .number 3, .operator .mul, .operator .sub, .number 4,
      .operator .sub] := by decide +kernel

end DiceNotation.PostOrder
