import DiceNotation.Proofs.Precedence

/-!
# What parentheses shut in

An open parenthesis on the stack is a floor: the tokens up to its partner never look below it, and
the partner puts out everything above it, just as the end of the text would. This holds of every
list of tokens that the pass to post-order accepts, whether the grammar derives it or not.
-/

namespace DiceNotation.PostOrder

variable {held below : List Pending}

theorem release_floor (op : Operator) (held stack : List Pending) :
    release op (held ++ .paren :: stack) =
      ((release op held).1, (release op held).2 ++ .paren :: stack) := by
  induction held with
  | nil => rfl
  | cons top held ih =>
      cases top with
      | paren => rfl
      | operator top =>
          simp only [List.cons_append, release]
          split
          · rfl
          · rw [ih]

theorem close?_floor {closed : List Operator} (h : close? held = some (closed, below))
    (stack : List Pending) :
    close? (held ++ .paren :: stack) = some (closed, below ++ .paren :: stack) := by
  induction held generalizing closed with
  | nil => cases h
  | cons top held ih =>
      cases top with
      | paren =>
          cases h
          rfl
      | operator top =>
          obtain ⟨⟨inner, rest⟩, hinner, heq⟩ := Option.map_eq_some_iff.mp h
          cases heq
          simp only [List.cons_append, close?, ih hinner, Option.map_some]

theorem eq_operators_of_flush? {ops : List Operator} (h : flush? held = some ops) :
    held = ops.map .operator := by
  induction held generalizing ops with
  | nil =>
      cases h
      rfl
  | cons top held ih =>
      cases top with
      | paren => cases h
      | operator top =>
          obtain ⟨inner, hinner, rfl⟩ := Option.map_eq_some_iff.mp h
          rw [ih hinner, List.map_cons]

/-- Between parentheses, tokens put out what they put out alone, whatever waits outside. -/
theorem convert?_floor {tokens output : List Token} (h : convert? held tokens = some output)
    (stack : List Pending) (rest : List Token) :
    convert? (held ++ .paren :: stack) (tokens ++ .rightParen :: rest) =
      (convert? stack rest).map (output ++ ·) := by
  induction tokens generalizing held output with
  | nil =>
      obtain ⟨ops, hflush, rfl⟩ := Option.map_eq_some_iff.mp h
      rw [eq_operators_of_flush? hflush]
      exact convert?_close ops stack rest
  | cons token tokens ih =>
      cases token with
      | number value =>
          obtain ⟨output, houtput, rfl⟩ := Option.map_eq_some_iff.mp h
          simp only [List.cons_append, convert?, ih houtput, Option.map_map]
          rfl
      | dice literal =>
          obtain ⟨output, houtput, rfl⟩ := Option.map_eq_some_iff.mp h
          simp only [List.cons_append, convert?, ih houtput, Option.map_map]
          rfl
      | operator op =>
          obtain ⟨output, houtput, rfl⟩ := Option.map_eq_some_iff.mp h
          have hinner := ih houtput
          rw [List.cons_append] at hinner
          simp only [List.cons_append, convert?, release_floor, hinner, Option.map_map]
          congr 1
          funext tail
          exact (List.append_assoc _ _ _).symm
      | leftParen =>
          have hinner : convert? (.paren :: held) tokens = some output := h
          exact ih hinner
      | rightParen =>
          simp only [convert?] at h
          split at h
          next => cases h
          next closed below hclose =>
            obtain ⟨output, houtput, rfl⟩ := Option.map_eq_some_iff.mp h
            simp only [List.cons_append, convert?, close?_floor hclose, ih houtput, Option.map_map]
            congr 1
            funext tail
            exact (List.append_assoc _ _ _).symm

theorem ofInfix_eq_ok_iff {tokens output : List Token} :
    ofInfix tokens = .ok output ↔ convert? [] tokens = some output := by
  unfold ofInfix
  cases convert? [] tokens with
  | none => exact iff_of_false nofun nofun
  | some found => simp

/-- Two lists in parentheses with an operator between them. -/
theorem convert?_parens {left right outl outr : List Token} (op : Operator)
    (hl : convert? [] left = some outl) (hr : convert? [] right = some outr) :
    convert? [] (.leftParen :: (left ++ .rightParen :: .operator op :: .leftParen ::
      (right ++ [.rightParen]))) = some (outl ++ outr ++ [.operator op]) := by
  have hright := convert?_floor hr [.operator op] []
  have hleft := convert?_floor hl [] (.operator op :: .leftParen :: (right ++ [.rightParen]))
  rw [List.nil_append] at hleft hright
  simp only [convert?, hleft, release, hright, flush?]
  simp

end DiceNotation.PostOrder
