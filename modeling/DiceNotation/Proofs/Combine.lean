import DiceNotation.Proofs.Sequence
import DiceNotation.Roll.Basic

/-!
# Operators on rolls

When an operator combines two rolls, what the roll is, and the two errors that it can end with.
-/

namespace DiceNotation

/-- The errors that an operator can end with. -/
def Error.Arithmetic (e : Error) : Prop :=
  e = .zeroDivision ∨ e = .overflow

namespace Operator

variable {op : Operator} {left right : Int64} {e : Error}

theorem checked_error (h : op.checked left right = .error e) : e = .overflow := by
  unfold checked at h
  split at h
  · cases h
  · cases h
    rfl

theorem total_error (h : op.total left right = .error e) : e.Arithmetic := by
  unfold total at h
  split at h
  · cases h
    exact .inl rfl
  · exact .inr (checked_error h)

theorem modifier_error (h : op.modifier left right = .error e) : e = .overflow := by
  cases op with
  | add => exact checked_error h
  | sub => exact checked_error h
  | mul => cases h
  | div => cases h

end Operator

namespace Roll

variable {left right roll : Roll} {op : Operator} {e : Error}

theorem combine_eq_ok_iff :
    left.combine op right = .ok roll ↔
      ∃ total modifier, op.total left.total right.total = .ok total ∧
        op.modifier left.modifier right.modifier = .ok modifier ∧
        roll = {
          total, modifier
          draws := left.draws ++ right.draws
          dropped := left.dropped ++ right.dropped.map (· + left.draws.length)
          label :=
            "(" ++ left.label ++ " " ++ String.singleton op.toChar ++ " " ++ right.label ++ ")"
          details := left.details ++ right.details.map (Detail.shift left.draws.length) } := by
  rw [combine, bind_eq_ok_iff]
  constructor
  · rintro ⟨total, htotal, h⟩
    obtain ⟨modifier, hmodifier, hroll⟩ := bind_eq_ok_iff.mp h
    cases hroll
    exact ⟨total, modifier, htotal, hmodifier, rfl⟩
  · rintro ⟨total, modifier, htotal, hmodifier, rfl⟩
    exact ⟨total, htotal, bind_eq_ok_iff.mpr ⟨modifier, hmodifier, rfl⟩⟩

/-- The total is looked at before the modifier. -/
theorem combine_eq_error_iff :
    left.combine op right = .error e ↔
      op.total left.total right.total = .error e ∨
      ∃ total, op.total left.total right.total = .ok total ∧
        op.modifier left.modifier right.modifier = .error e := by
  rw [combine, bind_eq_error_iff]
  constructor
  · rintro (htotal | ⟨total, htotal, h⟩)
    · exact .inl htotal
    · rcases bind_eq_error_iff.mp h with hmodifier | ⟨modifier, -, hroll⟩
      · exact .inr ⟨total, htotal, hmodifier⟩
      · cases hroll
  · rintro (htotal | ⟨total, htotal, hmodifier⟩)
    · exact .inl htotal
    · exact .inr ⟨total, htotal, bind_eq_error_iff.mpr (.inl hmodifier)⟩

theorem combine_error (h : left.combine op right = .error e) : e.Arithmetic := by
  rcases combine_eq_error_iff.mp h with htotal | ⟨total, -, hmodifier⟩
  · exact Operator.total_error htotal
  · exact .inr (Operator.modifier_error hmodifier)

theorem combine_draws (h : left.combine op right = .ok roll) :
    roll.draws = left.draws ++ right.draws := by
  obtain ⟨total, modifier, -, -, rfl⟩ := combine_eq_ok_iff.mp h
  rfl

end Roll

end DiceNotation
