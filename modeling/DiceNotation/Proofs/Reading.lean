import DiceNotation.Proofs.Combine
import DiceNotation.Proofs.OperandOrder
import DiceNotation.Proofs.Scanning
import DiceNotation.Proofs.Trimming
import DiceNotation.Table

/-!
# Reading a text

A text that can be read is cut into lexemes and put in order; the operands of its formula are those
that it writes. Rolling such a text is evaluating its formula. A text that cannot be read is refused
for its letters or its parentheses, never for what it comes to.
-/

namespace DiceNotation

namespace Formula

/-- A text within the length limit is read whole, but for the blanks at its ends. -/
theorem significant_of_length_le {limits : Limits} {text : List Char}
    (h : (trim text).length ≤ limits.inputLength) : significant limits text = trim text := by
  rw [significant, List.take_of_length_le h]
  exact trimEnd_trimEnd _

theorem length_significant_le (limits : Limits) (text : List Char) :
    (significant limits text).length ≤ limits.inputLength :=
  (trimEnd_starts _).length_le.trans (List.length_take_le _ _)

/-- What a text that can be read is cut into and put in order. -/
structure ReadAs (limits : Limits) (input : String) (formula : Formula) (tokens : List Token) :
    Prop where
  nonblank : trim input.toList ≠ []
  text : formula.text = String.ofList (significant limits input.toList)
  scan : Token.scan formula.text = .ok tokens
  order : PostOrder.ofInfix tokens = .ok formula.tokens

theorem read_eq_ok_iff {limits : Limits} {input : String} {formula : Formula} :
    read limits input = .ok formula ↔ ∃ tokens, ReadAs limits input formula tokens := by
  unfold read
  constructor
  · intro h
    split at h
    next => cases h
    next hnonblank =>
      obtain ⟨tokens, hscan, h⟩ := bind_eq_ok_iff.mp h
      obtain ⟨ordered, horder, h⟩ := bind_eq_ok_iff.mp h
      cases h
      exact ⟨tokens, by simpa using hnonblank, rfl, hscan, horder⟩
  · rintro ⟨tokens, h⟩
    have hscan := h.scan
    rw [h.text] at hscan
    rw [if_neg (by simpa using h.nonblank)]
    refine bind_eq_ok_iff.mpr ⟨tokens, hscan, bind_eq_ok_iff.mpr ⟨_, h.order, ?_⟩⟩
    rw [← h.text]
    rfl

namespace ReadAs

variable {limits : Limits} {input : String} {formula : Formula} {tokens : List Token}

theorem exists_lexes (h : ReadAs limits input formula tokens) :
    ∃ words, Lexeme.Lexes (significant limits input.toList) words tokens [] := by
  have hscan := h.scan
  rw [h.text, Token.scan, String.toList_ofList] at hscan
  exact Token.scanFrom_eq_ok_iff.mp hscan

theorem mem_iff_of_isOperand (h : ReadAs limits input formula tokens) {token : Token}
    (hoperand : token.isOperand = true) : token ∈ formula.tokens ↔ token ∈ tokens := by
  have hmem : token ∈ formula.tokens.filter Token.isOperand ↔
      token ∈ tokens.filter Token.isOperand := by
    rw [PostOrder.operands_of_ofInfix h.order]
  simpa [List.mem_filter, hoperand] using hmem

end ReadAs

/-! ## Refusals -/

/-- What a text is read as that nothing is cut off. -/
def ofPart (part : List Char) : Except Error Formula := do
  let text := String.ofList part
  let tokens ← Token.scan text
  let ordered ← PostOrder.ofInfix tokens
  return { tokens := ordered, text }

theorem read_of_nonblank {limits : Limits} {input : String} (h : trim input.toList ≠ []) :
    read limits input = ofPart (significant limits input.toList) := by
  rw [read, if_neg (by simpa using h)]
  rfl

theorem read_of_blank {limits : Limits} {input : String} (h : trim input.toList = []) :
    read limits input = .error .blankInput := by
  rw [read, if_pos (by simp [h])]

theorem ofPart_eq_error_iff {part : List Char} {e : Error} : ofPart part = .error e ↔
    Token.scan (String.ofList part) = .error e ∨ ∃ tokens,
      Token.scan (String.ofList part) = .ok tokens ∧ PostOrder.ofInfix tokens = .error e := by
  unfold ofPart
  simp only [bind_eq_error_iff]
  refine or_congr_right (exists_congr fun tokens => and_congr_right fun _ => ?_)
  constructor
  · rintro (h | ⟨ordered, -, h⟩)
    · exact h
    · cases h
  · exact .inl

theorem kind_of_ofPart {part : List Char} {e : Error} (h : ofPart part = .error e) :
    e.kind = .grammar := by
  rcases ofPart_eq_error_iff.mp h with hscan | ⟨tokens, -, horder⟩
  · obtain ⟨words, tokens, c, rest, -, -, rfl⟩ := Token.scanFrom_eq_error_iff.mp hscan
    rfl
  · rw [PostOrder.ofInfix_eq_error horder]
    rfl

theorem not_arithmetic_of_read {limits : Limits} {input : String} {e : Error}
    (h : read limits input = .error e) : ¬ e.Arithmetic := by
  have hcause : e.kind = .input ∨ e.kind = .grammar := by
    by_cases hblank : trim input.toList = []
    · rw [read_of_blank hblank] at h
      cases h
      exact .inl rfl
    · rw [read_of_nonblank hblank] at h
      exact .inr (kind_of_ofPart h)
  rintro (rfl | rfl) <;> simp [Error.kind] at hcause

end Formula

namespace Table

variable {table : Table} {σ : Type} {source : Source σ} {s s' : σ} {input : String} {roll : Roll}

theorem roll_of_read {formula : Formula} (h : Formula.read table.limits input = .ok formula)
    (source : Source σ) : table.roll source input = table.evaluate source formula := by
  simp [Table.roll, h]

/-- A text that is refused leaves the state as it is. -/
theorem roll_of_read_error {e : Error} (h : Formula.read table.limits input = .error e)
    (source : Source σ) (s : σ) : table.roll source input s = (.error e, s) := by
  rw [Table.roll, Play.bind_apply, h]
  rfl

theorem exists_formula_of_roll (h : table.roll source input s = (.ok roll, s')) :
    ∃ formula, Formula.read table.limits input = .ok formula ∧
      table.evaluate source formula s = (.ok roll, s') := by
  cases hread : Formula.read table.limits input with
  | error e =>
      rw [roll_of_read_error hread] at h
      cases h
  | ok formula =>
      rw [roll_of_read hread] at h
      exact ⟨formula, rfl, h⟩

end Table

end DiceNotation
