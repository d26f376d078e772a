import DiceNotation.Table

/-!
# Expression trees

An expression is a constant, a group of dice, or an operator between two expressions. Its
post-order is a formula without parentheses; `Expr.roll` evaluates the tree itself, the left side
before the right one.
-/

namespace DiceNotation

inductive Expr where
  | number (value : Int64)
  | dice (literal : Literal)
  | binary (left : Expr) (op : Operator) (right : Expr)
deriving DecidableEq

namespace Expr

def postOrder : Expr → List Token
  | number value => [.number value]
  | dice literal => [.dice literal]
  | binary left op right => left.postOrder ++ right.postOrder ++ [.operator op]

/-- The stack of trees that the tokens leave on top of `trees`, the last one first. -/
def build? (trees : List Expr) : List Token → Option (List Expr)
  | [] => some trees
  | .number value :: tokens => build? (.number value :: trees) tokens
  | .dice literal :: tokens => build? (.dice literal :: trees) tokens
  | .operator op :: tokens =>
    match trees with
    | right :: left :: below => build? (.binary left op right :: below) tokens
    | _ => none
  | .leftParen :: _ | .rightParen :: _ => none

def roll {σ : Type} (table : Table) (source : Source σ) : Expr → Play σ Roll
  | number value => return .constant value
  | dice literal => do
    let rule ← Play.ofExcept (table.rulebook.ruleFor literal)
    rule.roll table.limits source literal
  | binary left op right => do
    let l ← left.roll table source
    let r ← right.roll table source
    Play.ofExcept (l.combine op r)

end Expr

namespace Token

/-- How many operands wait after the tokens, when `depth` wait before them. There is no such
number at a parenthesis, or at an operator for which fewer than two operands wait. -/
def waiting? (depth : Nat) : List Token → Option Nat
  | [] => some depth
  | .number _ :: tokens | .dice _ :: tokens => waiting? (depth + 1) tokens
  | .operator _ :: tokens => if depth < 2 then none else waiting? (depth - 1) tokens
  | .leftParen :: _ | .rightParen :: _ => none

/-- The tokens reduce to a single value. -/
def Reduces (tokens : List Token) : Prop :=
  waiting? 0 tokens = some 1

end Token

end DiceNotation
