import DiceNotation.Source.Basic

/-!
# Faces from random words

A generator yields 64-bit words: those of a list, then zeros for ever. A face of a die with `sides`
faces is one more than the upper half of the 128-bit product of a word and `sides`. A word is
accepted if the lower half of the product is below `sides` shifted left as far as 64 bits allow;
otherwise the next word is taken. So every face has the same number of accepted words.
-/

namespace DiceNotation

structure Words where
  pending : List UInt64
  used : Nat
deriving DecidableEq

namespace Words

def ofList (words : List UInt64) : Words :=
  ⟨words, 0⟩

/-- Products whose lower half is below this are accepted. -/
def bound (sides : Nat) : Nat :=
  sides <<< (63 - sides.log2)

def accepts (sides : Nat) (word : UInt64) : Bool :=
  decide (word.toNat * sides % UInt64.size < bound sides)

def faceOf (sides : Nat) (word : UInt64) : Nat :=
  1 + word.toNat * sides / UInt64.size

/-- Skips the words that are not accepted. A zero always is, and gives the face 1. -/
def drawFrom (sides used : Nat) : List UInt64 → Nat × Words
  | [] => (faceOf sides 0, ⟨[], used + 1⟩)
  | word :: pending =>
    if accepts sides word then (faceOf sides word, ⟨pending, used + 1⟩)
    else drawFrom sides (used + 1) pending

def source : Source Words where
  draw sides words :=
    if sides < 1 then (.error (.source .noSides), words)
    else
      let (face, next) := drawFrom sides.toInt.toNat words.used words.pending
      (.ok (Int64.ofNat face), next)

theorem accepts_zero {sides : Nat} (h : 0 < sides) : accepts sides 0 = true := by
  simp [accepts, bound, Nat.shiftLeft_eq, Nat.mul_pos h (Nat.two_pow_pos _)]

example : drawFrom 6 0 [18446744073709551615, 9223372036854775808] = (4, ⟨[], 2⟩) := by decide +kernel

end Words

end DiceNotation
