import DiceNotation.Proofs.Parentheses
import DiceNotation.Proofs.Reading
import DiceNotation.Proofs.ScanAppend
import DiceNotation.Proofs.Throws

/-!
# Compound texts

Two texts that can be rolled, in parentheses and with an operator between them, can be rolled as one
text. It draws what the two draw one after the other, and comes to what the operator makes of their
rolls.
-/

namespace DiceNotation

namespace Formula

/-- `(left) op (right)`, without the blanks at the ends of the two texts. -/
def compound (left : String) (op : Operator) (right : String) : String :=
  "(" ++ String.ofList (trim left.toList) ++ ") " ++ String.singleton op.toChar ++ " (" ++
    String.ofList (trim right.toList) ++ ")"

theorem toList_compound (left : String) (op : Operator) (right : String) :
    (compound left op right).toList = '(' :: (trim left.toList ++ ')' :: ' ' :: op.toChar :: ' ' ::
      '(' :: (trim right.toList ++ [')'])) := by
  simp [compound]

variable {limits : Limits} {left right : String} {l r : Formula}

theorem significant_compound {op : Operator}
    (hlength : (compound left op right).length ≤ limits.inputLength) :
    trim (compound left op right).toList = (compound left op right).toList ∧
      significant limits (compound left op right).toList = (compound left op right).toList := by
  have htrim : trim (compound left op right).toList = (compound left op right).toList := by
    have hopen : isBlank '(' = false := by decide
    have hclose : isBlank ')' = false := by decide
    have hends := trim_of_ends hopen hclose
      (trim left.toList ++ ')' :: ' ' :: op.toChar :: ' ' :: '(' :: trim right.toList)
    rw [toList_compound]
    simpa using hends
  refine ⟨htrim, ?_⟩
  rw [significant_of_length_le, htrim]
  rw [htrim, String.length_toList]
  exact hlength

theorem length_trim_le (left : String) (op : Operator) (right : String) :
    (trim left.toList).length ≤ (compound left op right).length ∧
      (trim right.toList).length ≤ (compound left op right).length := by
  rw [← String.length_toList, toList_compound]
  simp only [List.length_cons, List.length_append]
  omega

theorem ReadAs.exists_lexes_trim {input : String} {formula : Formula} {tokens : List Token}
    (h : ReadAs limits input formula tokens)
    (hlength : (trim input.toList).length ≤ limits.inputLength) :
    ∃ words, Lexeme.Lexes (trim input.toList) words tokens [] := by
  rw [← significant_of_length_le hlength]
  exact h.exists_lexes

/-- The lexemes of the two texts stay as they are inside the compound. -/
theorem exists_lexes_compound {ltokens rtokens : List Token} {lwords rwords : List (List Char)}
    (op : Operator) (hl : Lexeme.Lexes (trim left.toList) lwords ltokens [])
    (hr : Lexeme.Lexes (trim right.toList) rwords rtokens []) :
    ∃ words, Lexeme.Lexes (compound left op right).toList words
      (.leftParen :: (ltokens ++ .rightParen :: .operator op :: .leftParen ::
        (rtokens ++ [.rightParen]))) [] := by
  have hright := (hr.closed []).append (.rightParen (.stop []))
  have hop : Lexeme.isSeparator op.toChar = false := by cases op <;> decide
  have hbetween := Lexeme.Lexes.rightParen <| .space (by simpa using hop) <| .operator op <|
    .space (by simp [Lexeme.isSeparator]) <| .leftParen hright
  have hleft := Lexeme.Lexes.leftParen <| (hl.closed _).append hbetween
  rw [toList_compound]
  exact ⟨_, hleft⟩

/-- The two texts are read inside the compound as they are read alone. -/
theorem read_compound {op : Operator} (hl : read limits left = .ok l)
    (hr : read limits right = .ok r)
    (hlength : (compound left op right).length ≤ limits.inputLength) :
    read limits (compound left op right) =
      .ok ⟨l.tokens ++ r.tokens ++ [.operator op], compound left op right⟩ := by
  obtain ⟨ltokens, hl⟩ := read_eq_ok_iff.mp hl
  obtain ⟨rtokens, hr⟩ := read_eq_ok_iff.mp hr
  obtain ⟨hlelength, hrlength⟩ := length_trim_le left op right
  -- neither text is cut short: the compound contains both and is within the limit
  obtain ⟨lwords, hllexes⟩ := hl.exists_lexes_trim (hlelength.trans hlength)
  obtain ⟨rwords, hrlexes⟩ := hr.exists_lexes_trim (hrlength.trans hlength)
  obtain ⟨words, hlexes⟩ := exists_lexes_compound op hllexes hrlexes
  obtain ⟨htrim, hsignificant⟩ := significant_compound hlength
  have horder := PostOrder.convert?_parens op (PostOrder.ofInfix_eq_ok_iff.mp hl.order)
    (PostOrder.ofInfix_eq_ok_iff.mp hr.order)
  refine read_eq_ok_iff.mpr ⟨_, ?_, ?_, ?_, PostOrder.ofInfix_eq_ok_iff.mpr horder⟩
  · rw [htrim, toList_compound]
    exact List.cons_ne_nil _ _
  · rw [hsignificant, String.ofList_toList]
  · exact Token.scanFrom_eq_ok_iff.mpr ⟨words, hlexes⟩

end Formula

/-! ## Rolling -/

/-- An operator does not read the labels of its sides. -/
theorem Roll.combine_relabel (left : Roll) (op : Operator) (right : Roll) (x y text : String) :
    (combine { left with label := x } op { right with label := y }).map
        (fun roll => { roll with label := text }) =
      (left.combine op right).map fun roll => { roll with label := text } := by
  unfold combine
  cases op.total left.total right.total with
  | error e => rfl
  | ok total =>
      cases op.modifier left.modifier right.modifier with
      | error e => rfl
      | ok modifier => rfl

namespace Table

variable {table : Table} {σ : Type} {source : Source σ} {s s' s₁ s₂ : σ} {input left right : String}
  {op : Operator} {roll a b : Roll}

/-- A roll is that of the formula's tree under the formula's text. -/
theorem exists_tree_of_evaluate {formula : Formula}
    (h : table.evaluate source formula s = (.ok roll, s')) :
    ∃ (e : Expr) (raw : Roll), e.postOrder = formula.tokens ∧
      (∀ t ∈ formula.tokens, table.Admits t) ∧ e.roll table source s = (.ok raw, s') ∧
      roll = { raw with label := formula.text } := by
  obtain ⟨tokens, text⟩ := formula
  have hcheck := check_of_evaluate h
  obtain ⟨hreduces, hall⟩ := check_eq_ok_iff.mp hcheck
  obtain ⟨e, rfl⟩ := Expr.exists_postOrder_eq hreduces
  rw [evaluate_postOrder hcheck, map_eq_pure_bind, Play.bind_apply] at h
  cases hroll : e.roll table source s with
  | mk result after =>
      rw [hroll] at h
      cases result with
      | error e => cases h
      | ok raw =>
          cases h
          exact ⟨e, raw, rfl, hall, hroll, rfl⟩

/-- The same draws are made, whether they are recorded or not. -/
theorem exists_recorded_of_roll (h : table.roll source input s = (.ok roll, s'))
    (record : List Draw) :
    ∃ record', table.roll source.recorded input (s, record) = (.ok roll, s', record') := by
  obtain ⟨formula, hread, heval⟩ := exists_formula_of_roll h
  obtain ⟨-, throws, -, -, -, -, hrun⟩ := exists_settles_of_evaluate heval record
  rw [roll_of_read hread]
  exact ⟨_, hrun⟩

theorem run_compound (hleft : table.roll source left s = (.ok a, s₁))
    (hright : table.roll source right s₁ = (.ok b, s₂))
    (hlength : (Formula.compound left op right).length ≤ table.limits.inputLength) :
    table.roll source (Formula.compound left op right) s =
      ((a.combine op b).map fun roll => { roll with label := Formula.compound left op right },
        s₂) := by
  obtain ⟨⟨ltokens, ltext⟩, hlread, hleval⟩ := exists_formula_of_roll hleft
  obtain ⟨⟨rtokens, rtext⟩, hrread, hreval⟩ := exists_formula_of_roll hright
  obtain ⟨l, lraw, rfl, hladmits, hlroll, rfl⟩ := exists_tree_of_evaluate hleval
  obtain ⟨r, rraw, rfl, hradmits, hrroll, rfl⟩ := exists_tree_of_evaluate hreval
  have hread := Formula.read_compound hlread hrread hlength
  -- both trees have passed the check, so the tree that joins them passes it
  have hcheck : table.check (Expr.binary l op r).postOrder = .ok () := by
    refine check_eq_ok_iff.mpr ⟨Expr.reduces_postOrder _, ?_⟩
    simp only [Expr.postOrder, List.forall_mem_append, List.forall_mem_singleton]
    exact ⟨⟨hladmits, hradmits⟩, trivial⟩
  rw [roll_of_read hread, Roll.combine_relabel]
  show table.evaluate source ⟨(Expr.binary l op r).postOrder, _⟩ s = _
  rw [evaluate_postOrder hcheck, map_eq_pure_bind, Play.bind_apply]
  simp only [Expr.roll, Play.bind_apply, hlroll, hrroll]
  cases lraw.combine op rraw with
  | error e => rfl
  | ok combined => rfl

/-- **Texts compose.** If a text is rolled, and then another one, both in parentheses with an operator
between them are rolled as one text, unless it is too long: from the same state to the same state,
with the same draws on record, and with what the operator makes of the two rolls under the new
text. It fails exactly if the operator does. -/
theorem roll_compound (hleft : table.roll source left s = (.ok a, s₁))
    (hright : table.roll source right s₁ = (.ok b, s₂))
    (hlength : (Formula.compound left op right).length ≤ table.limits.inputLength) :
    table.roll source (Formula.compound left op right) s =
      ((a.combine op b).map fun roll => { roll with label := Formula.compound left op right },
        s₂) ∧
    (∀ e, a.combine op b = .error e → e = .zeroDivision ∨ e = .overflow) ∧
    ∀ record : List Draw, ∃ record₁ record₂,
      table.roll source.recorded left (s, record) = (.ok a, s₁, record₁) ∧
      table.roll source.recorded right (s₁, record₁) = (.ok b, s₂, record₂) ∧
      table.roll source.recorded (Formula.compound left op right) (s, record) =
        ((a.combine op b).map fun roll => { roll with label := Formula.compound left op right },
          s₂, record₂) := by
  refine ⟨run_compound hleft hright hlength, fun e => Roll.combine_error, fun record => ?_⟩
  obtain ⟨record₁, hleft'⟩ := exists_recorded_of_roll hleft record
  obtain ⟨record₂, hright'⟩ := exists_recorded_of_roll hright record₁
  exact ⟨record₁, record₂, hleft', hright', run_compound hleft' hright' hlength⟩

/-- `2 1d6 +` is no infix expression, but can be rolled, and so can it in parentheses. -/
theorem roll_compound_product :
    Table.roll {} (Script.source []) "(2 1d6 +) * (1d4)" ⟨[5, 3], .error⟩ =
      (.ok ⟨21, [5, 3], [], 0, "(2 1d6 +) * (1d4)", []⟩, ⟨[], .error⟩) := by
  have hleft : Table.roll {} (Script.source []) " 2 1d6 +" ⟨[5, 3], .error⟩ =
      (.ok ⟨7, [5], [], 2, "2 1d6 +", []⟩, ⟨[3], .error⟩) := by
    change @Eq (Except Error Roll × Script) _ _
    decide +kernel
  have hright : Table.roll {} (Script.source []) "1d4 " ⟨[3], .error⟩ =
      (.ok ⟨3, [3], [], 0, "1d4", []⟩, ⟨[], .error⟩) := by
    change @Eq (Except Error Roll × Script) _ _
    decide +kernel
  have htext : Formula.compound " 2 1d6 +" .mul "1d4 " = "(2 1d6 +) * (1d4)" := by decide +kernel
  have hlength : (Formula.compound " 2 1d6 +" .mul "1d4 ").length ≤ 50 := by decide +kernel
  have hroll := (roll_compound hleft hright hlength).1
  rw [htext] at hroll
  exact hroll

end Table

end DiceNotation
