/-!
# One step after another

When two steps that may fail have a value, and when they have an error.
-/

namespace DiceNotation

variable {ε α β : Type} {first : Except ε α} {next : α → Except ε β}

theorem bind_eq_ok_iff {b : β} :
    (first >>= next) = .ok b ↔ ∃ a, first = .ok a ∧ next a = .ok b := by
  cases first with
  | error e => simp [bind, Except.bind]
  | ok a => simp [bind, Except.bind]

/-- The first error counts. -/
theorem bind_eq_error_iff {e : ε} :
    (first >>= next) = .error e ↔
      first = .error e ∨ ∃ a, first = .ok a ∧ next a = .error e := by
  cases first with
  | error cause => simp [bind, Except.bind]
  | ok a => simp [bind, Except.bind]

end DiceNotation
