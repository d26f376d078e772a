/-!
# Decimal numerals

Digits are the ten ASCII digits. A numeral is a non-empty run of them; zeros in front are allowed
and change nothing.
-/

namespace DiceNotation.Numeral

/-- The value of a numeral; nothing else has one. -/
def read? (text : List Char) : Option Nat :=
  if text.isEmpty || !text.all Char.isDigit then none else some (Nat.ofDigitChars 10 text 0)

/-- The numeral of a number without zeros in front. -/
def ofNat (n : Nat) : List Char :=
  Nat.toDigits 10 n

/-- A negative number has a minus sign in front. -/
def ofInt : Int → List Char
  | .ofNat n => ofNat n
  | .negSucc n => '-' :: ofNat (n + 1)

def ofInt64 (n : Int64) : List Char :=
  ofInt n.toInt

theorem all_isDigit_ofNat (n : Nat) : (ofNat n).all Char.isDigit = true :=
  List.all_eq_true.2 fun _ h => Nat.isDigit_of_mem_toDigits (by decide) (by decide) h

/-- Printing a natural number and reading it again changes nothing. -/
theorem read?_ofNat (n : Nat) : read? (ofNat n) = some n := by
  have nonempty : (ofNat n).isEmpty = false := by simp [ofNat]
  simp only [read?, nonempty, all_isDigit_ofNat, Bool.not_true, Bool.or_self]
  exact congrArg some (Nat.ofDigitChars_toDigits (by decide) (by decide))

end DiceNotation.Numeral
