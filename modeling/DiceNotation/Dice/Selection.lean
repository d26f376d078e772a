import DiceNotation.Quantity
import DiceNotation.Text.Numeral

/-!
# Selections

A selection keeps or drops the highest or lowest so many values of a group. Values are ranked in
ascending order, equal ones by position; a number beyond the size of the group takes the whole of
it. Dropped values are named by position and stay in the group.
-/

namespace DiceNotation

namespace Selection

inductive Mode where
  | keep
  | drop
deriving DecidableEq

inductive Direction where
  | high
  | low
deriving DecidableEq

end Selection

structure Selection where
  mode : Selection.Mode
  direction : Selection.Direction
  amount : Quantity
deriving DecidableEq

namespace Selection

/-- Without a direction, the highest values are kept and the lowest are dropped. -/
def Mode.defaultDirection : Mode → Direction
  | keep => .high
  | drop => .low

def of (mode : Mode) (direction? : Option Direction) (amount : Quantity) : Selection :=
  ⟨mode, direction?.getD mode.defaultDirection, amount⟩

def Mode.letter : Mode → Char
  | keep => 'k'
  | drop => 'd'

def Direction.letter : Direction → Char
  | high => 'h'
  | low => 'l'

def render (s : Selection) : List Char :=
  s.mode.letter :: s.direction.letter :: Numeral.ofNat s.amount.val

/-- The positions of the values in ascending order of value, equal values in order of position. -/
def ranking (values : List Int64) : List Nat :=
  (values.zipIdx.mergeSort fun a b => decide (a.1 ≤ b.1)).map (·.2)

/-- The part of a ranking that the selection cuts off. -/
def cut (s : Selection) (ranked : List Nat) : List Nat :=
  match s.mode, s.direction with
  | .keep, .high => ranked.take (ranked.length - s.amount.val)
  | .keep, .low => ranked.drop s.amount.val
  | .drop, .high => ranked.drop (ranked.length - s.amount.val)
  | .drop, .low => ranked.take s.amount.val

/-- The positions that are dropped, in ascending order. -/
def dropped (s : Selection) (values : List Int64) : List Nat :=
  (s.cut (ranking values)).mergeSort fun i j => decide (i ≤ j)

example : dropped ⟨.keep, .high, .one⟩ [2, 3, 3] = [0, 1] := by cbv
example : dropped ⟨.drop, .low, .one⟩ [3, 2, 2] = [1] := by cbv

end Selection

/-- One flag per position below `size`, set at the positions listed. -/
def positionFlags (size : Nat) (positions : List Nat) : Array Bool :=
  positions.foldl (fun flags i => flags.setIfInBounds i true) (Array.replicate size false)

/-- The values at positions that are not dropped. -/
def kept (values : List Int64) (dropped : List Nat) : List Int64 :=
  ((values.zip (positionFlags values.length dropped).toList).filter (!·.2)).map (·.1)

/-- The sum of the values that are not dropped, modulo `2 ^ 64`. -/
def keptTotal (values : List Int64) (dropped : List Nat) : Int64 :=
  (kept values dropped).sum

end DiceNotation
