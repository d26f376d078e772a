import DiceNotation.Error
import DiceNotation.Roll.Detail

/-!
# Rolls

A roll is the outcome of a constant, of a group of dice, or of two rolls and an operator. It holds
every draw in order; dropped draws stay and are named by position.
-/

namespace DiceNotation

structure Roll where
  total : Int64
  draws : List Int64
  dropped : List Nat
  /-- What constants add to the total through sums and differences alone. -/
  modifier : Int64
  label : String
  details : List Detail
deriving DecidableEq

/-- A 64-bit integer of the given value, if there is one. -/
def exactInt64? (n : Int) : Option Int64 :=
  if Int64.minValue.toInt ≤ n ∧ n ≤ Int64.maxValue.toInt then some (Int64.ofInt n) else none

namespace Operator

/-- The exact value, or `overflow`. -/
def checked (op : Operator) (left right : Int64) : Except Error Int64 :=
  match exactInt64? (op.exact left.toInt right.toInt) with
  | some value => .ok value
  | none => .error .overflow

def total (op : Operator) (left right : Int64) : Except Error Int64 :=
  if op = .div ∧ right = 0 then .error .zeroDivision else op.checked left right

/-- Modifiers add up; a product or a quotient has none. -/
def modifier (op : Operator) (left right : Int64) : Except Error Int64 :=
  match op with
  | add | sub => op.checked left right
  | mul | div => .ok 0

end Operator

namespace Roll

def constant (value : Int64) : Roll where
  total := value
  draws := []
  dropped := []
  modifier := value
  label := String.ofList (Numeral.ofInt64 value)
  details := []

/-- The draws of `right` follow those of `left`, so its positions move up. -/
def combine (left : Roll) (op : Operator) (right : Roll) : Except Error Roll := do
  let total ← op.total left.total right.total
  let modifier ← op.modifier left.modifier right.modifier
  let shift := left.draws.length
  return {
    total
    draws := left.draws ++ right.draws
    dropped := left.dropped ++ right.dropped.map (· + shift)
    modifier
    label := "(" ++ left.label ++ " " ++ String.singleton op.toChar ++ " " ++ right.label ++ ")"
    details := left.details ++ right.details.map (Detail.shift shift)
  }

/-- Halves the part of an ascending array that may hold `target`, down to one position. -/
def bisect (positions : Array Nat) (target base size : Nat) : Nat :=
  if size ≤ 1 then base
  else
    let half := size / 2
    let middle := base + half
    let base := if (positions[middle]?.getD 0) > target then base else middle
    bisect positions target base (size - half)
termination_by size

/-- Whether a position is dropped, by bisection: `dropped` is in ascending order. -/
def isDropped (roll : Roll) (position : Nat) : Bool :=
  let positions := roll.dropped.toArray
  positions[bisect positions position 0 positions.size]? == some position

/-- The texts of the draws from position `i` on, the dropped ones struck out. `dropped` is followed
in step with the draws. -/
def renderDraws (i : Nat) (dropped : List Nat) : List Int64 → List String
  | [] => []
  | value :: draws =>
    let text := String.ofList (Numeral.ofInt64 value)
    if dropped.head? = some i then ("~" ++ text ++ "~") :: renderDraws (i + 1) dropped.tail draws
    else text :: renderDraws (i + 1) dropped draws

def render (roll : Roll) : String :=
  roll.label ++ " [" ++ ", ".intercalate (renderDraws 0 roll.dropped roll.draws) ++ "] = " ++
    String.ofList (Numeral.ofInt64 roll.total) ++
    String.join (roll.details.map fun detail => " " ++ detail.reading.render)

/-- The faction readings of a roll in order. -/
def factions (roll : Roll) : List FactionReading :=
  roll.details.filterMap (·.reading.faction?)

end Roll

end DiceNotation
