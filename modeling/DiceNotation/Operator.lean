/-!
# Arithmetic operators

The four binary operators of an expression. All of them associate to the left; products and
quotients bind tighter than sums and differences.
-/

namespace DiceNotation

inductive Operator where
  | add
  | sub
  | mul
  | div
deriving DecidableEq

namespace Operator

def precedence : Operator → Nat
  | add | sub => 1
  | mul | div => 2

def toChar : Operator → Char
  | add => '+'
  | sub => '-'
  | mul => '*'
  | div => '/'

def ofChar? : Char → Option Operator
  | '+' => some add
  | '-' => some sub
  | '*' => some mul
  | '/' => some div
  | _ => none

/-- The operation on unbounded integers. A quotient is cut toward zero. -/
def exact : Operator → Int → Int → Int
  | add, a, b => a + b
  | sub, a, b => a - b
  | mul, a, b => a * b
  | div, a, b => a.tdiv b

theorem ofChar?_toChar (op : Operator) : ofChar? op.toChar = some op := by
  cases op <;> rfl

end Operator

end DiceNotation
