import DiceNotation.Source.Basic

/-!
# Scripted sources

A script hands out a list of faces in order, whatever is asked for, and says what follows when the
list is used up.
-/

namespace DiceNotation

namespace Script

/-- What follows the list of a script. `lcg` draws from a linear congruential generator. -/
inductive Rest where
  | error
  | cycle
  | highest
  | lowest
  | lcg (seed : UInt64)
deriving DecidableEq

end Script

structure Script where
  faces : List Int64
  rest : Script.Rest
deriving DecidableEq

namespace Script

def lcgNext (seed : UInt64) : UInt64 :=
  seed * 6364136223846793005 + 1442695040888963407

/-- A face from the upper 31 bits of a generator's state. -/
def lcgFace (seed : UInt64) (sides : Int64) : Int64 :=
  Int64.ofNat (1 + (seed >>> 33).toNat % sides.toInt.toNat)

/-- A source whose state is the script that remains. A cycle starts `faces` again. -/
def source (faces : List Int64) : Source Script where
  draw sides := fun
    | ⟨value :: remaining, rest⟩ => (.ok value, ⟨remaining, rest⟩)
    | ⟨[], .error⟩ => (.error (.source .exhausted), ⟨[], .error⟩)
    | ⟨[], .cycle⟩ =>
      match faces with
      | [] => (.error (.source .exhausted), ⟨[], .cycle⟩)
      | value :: remaining => (.ok value, ⟨remaining, .cycle⟩)
    | ⟨[], .highest⟩ => (.ok sides, ⟨[], .highest⟩)
    | ⟨[], .lowest⟩ => (.ok 1, ⟨[], .lowest⟩)
    | ⟨[], .lcg seed⟩ =>
      let next := lcgNext seed
      (.ok (lcgFace next sides), ⟨[], .lcg next⟩)

end Script

end DiceNotation
