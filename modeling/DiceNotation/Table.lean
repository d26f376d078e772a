import DiceNotation.Formula
import DiceNotation.Rule

/-!
# Tables

A table has a rulebook and limits. It checks a whole formula before it draws anything, then runs
the formula on a stack of rolls.
-/

namespace DiceNotation

structure Table where
  rulebook : Rulebook := .full
  limits : Limits := {}
deriving DecidableEq

namespace Table

/-- Whether the token may stand where `depth` operands wait, and how many wait after it. -/
def checkToken (table : Table) (depth : Nat) : Token → Except Error Nat
  | .number value =>
    if value.toInt.natAbs ≤ table.limits.constant.toInt.natAbs then .ok (depth + 1)
    else .error (.constant value table.limits.constant)
  | .dice literal => do
    let rule ← table.rulebook.ruleFor literal
    rule.check table.limits literal.dice
    return depth + 1
  | .operator op => if depth < 2 then .error (.missingOperand op) else .ok (depth - 1)
  | .leftParen | .rightParen => .error .strayParen

def checkFrom (table : Table) (depth : Nat) : List Token → Except Error Unit
  | [] => if depth = 1 then .ok () else .error .notSingleValue
  | token :: tokens => do
    let next ← table.checkToken depth token
    table.checkFrom next tokens

def check (table : Table) (tokens : List Token) : Except Error Unit :=
  table.checkFrom 0 tokens

variable {σ : Type}

/-- The stack of rolls after one token, the last roll on top. -/
def step (table : Table) (source : Source σ) (stack : List Roll) : Token → Play σ (List Roll)
  | .number value => return .constant value :: stack
  | .dice literal => do
    let rule ← Play.ofExcept (table.rulebook.ruleFor literal)
    let roll ← rule.roll table.limits source literal
    return roll :: stack
  | .operator op =>
    match stack with
    | right :: left :: rest => do
      let roll ← Play.ofExcept (left.combine op right)
      return roll :: rest
    | _ => throw (.missingOperand op)
  | .leftParen | .rightParen => throw .strayParen

def run (table : Table) (source : Source σ) (stack : List Roll) : List Token → Play σ Roll
  | [] =>
    match stack with
    | [roll] => return roll
    | _ => throw .notSingleValue
  | token :: tokens => do
    let next ← table.step source stack token
    table.run source next tokens

def evaluate (table : Table) (source : Source σ) (formula : Formula) : Play σ Roll := do
  Play.ofExcept (table.check formula.tokens)
  let roll ← table.run source [] formula.tokens
  return { roll with label := formula.text }

def roll (table : Table) (source : Source σ) (input : String) : Play σ Roll := do
  let formula ← Play.ofExcept (Formula.read table.limits input)
  table.evaluate source formula

end Table

end DiceNotation
