import DiceNotation.PostOrder

/-!
# The order of operands

The pass to post-order lets operands through at once, so they keep their order whatever the
precedences and the parentheses.
-/

namespace DiceNotation.PostOrder

open Token

/-- Nothing but the parentheses is checked. -/
theorem ofInfix_eq_error {tokens : List Token} {e : Error} (h : ofInfix tokens = .error e) :
    e = .mismatchedParens := by
  unfold ofInfix at h
  split at h
  · cases h
    rfl
  · cases h

theorem filter_isOperand_operators (ops : List Operator) :
    (ops.map Token.operator).filter isOperand = [] := by
  simp [isOperand]

theorem operands_of_convert? {stack : List Pending} {tokens output : List Token}
    (h : convert? stack tokens = some output) :
    output.filter isOperand = tokens.filter isOperand := by
  induction tokens generalizing stack output with
  | nil =>
      obtain ⟨ops, -, rfl⟩ := Option.map_eq_some_iff.mp h
      exact filter_isOperand_operators ops
  | cons token tokens ih =>
      cases token with
      | number value =>
          obtain ⟨rest, hrest, rfl⟩ := Option.map_eq_some_iff.mp h
          exact congrArg (Token.number value :: ·) (ih hrest)
      | dice literal =>
          obtain ⟨rest, hrest, rfl⟩ := Option.map_eq_some_iff.mp h
          exact congrArg (Token.dice literal :: ·) (ih hrest)
      | operator op =>
          obtain ⟨rest, hrest, rfl⟩ := Option.map_eq_some_iff.mp h
          simp [isOperand, ih hrest]
      | leftParen =>
          simpa [isOperand] using ih h
      | rightParen =>
          -- What a parenthesis releases are operators.
          simp only [convert?] at h
          cases hclose : close? stack with
          | none => simp [hclose] at h
          | some pair =>
              rw [hclose] at h
              obtain ⟨rest, hrest, rfl⟩ := Option.map_eq_some_iff.mp h
              simp [isOperand, ih hrest]

theorem operands_of_ofInfix {tokens output : List Token} (h : ofInfix tokens = .ok output) :
    output.filter isOperand = tokens.filter isOperand := by
  unfold ofInfix at h
  split at h
  · cases h
  · rename_i hconvert
    cases h
    exact operands_of_convert? hconvert

theorem filterMap_literal?_filter (tokens : List Token) :
    (tokens.filter isOperand).filterMap literal? = tokens.filterMap literal? := by
  induction tokens with
  | nil => rfl
  | cons token tokens ih =>
      cases token with
      | dice literal => exact congrArg (literal :: ·) ih
      | _ => exact ih

theorem literals_of_ofInfix {tokens output : List Token} (h : ofInfix tokens = .ok output) :
    output.filterMap literal? = tokens.filterMap literal? := by
  rw [← filterMap_literal?_filter, operands_of_ofInfix h, filterMap_literal?_filter]

end DiceNotation.PostOrder
