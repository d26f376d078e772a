/-!
# Limits

Ceilings on the work for one expression. They are checked before anything is drawn, except for the
explosion depth, which ends a chain of draws.
-/

namespace DiceNotation

structure Limits where
  /-- Characters of an expression that are read; the rest is cut off. -/
  inputLength : Nat := 50
  /-- Count of one group of dice. -/
  dice : Nat := 500
  /-- Faces of a die. -/
  sides : Nat := 1000
  /-- Magnitude of a constant. The sign of the ceiling does not matter. -/
  constant : Int64 := 1000
  /-- Draws in the chain of one exploding die. -/
  explosionDepth : Nat := 50
deriving DecidableEq

end DiceNotation
