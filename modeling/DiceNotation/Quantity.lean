/-!
# Positive 32-bit quantities

Dice counts, face counts and the number in a selection are positive and at most `2 ^ 32 - 1`.
-/

namespace DiceNotation

structure Quantity where
  val : Nat
  pos : 0 < val
  le : val ≤ 4294967295
deriving DecidableEq

namespace Quantity

def largest : Nat := 4294967295

def ofNat? (n : Nat) : Option Quantity :=
  if h : 0 < n ∧ n ≤ 4294967295 then some ⟨n, h.1, h.2⟩ else none

/-- A number beyond the largest quantity counts as the largest; zero is no quantity. -/
def saturate? (n : Nat) : Option Quantity :=
  ofNat? (min n largest)

def one : Quantity := ⟨1, by decide, by decide⟩

def toInt64 (q : Quantity) : Int64 :=
  Int64.ofNat q.val

theorem ofNat?_val (q : Quantity) : ofNat? q.val = some q := by
  simp [ofNat?, q.pos, q.le]

theorem saturate?_val (q : Quantity) : saturate? q.val = some q := by
  rw [saturate?, largest, Nat.min_eq_left q.le, ofNat?_val]

end Quantity

end DiceNotation
