import DiceNotation.Proofs.Atomicity
import DiceNotation.Proofs.Reading

/-!
# Wider limits

A ceiling only refuses. What a text asks for is compared with it before anything is drawn, and once
the check has passed, the one limit that a roll still looks at is the explosion depth. So what a
table does not refuse is rolled in the same way, draw for draw, by every table with wider limits and
the same depth.
-/

namespace DiceNotation

namespace Limits

/-- The wide limits have room for whatever the narrow ones have room for, and end the chain of an
exploding die where these do. -/
structure Widens (narrow wide : Limits) : Prop where
  dice : narrow.dice ≤ wide.dice
  sides : narrow.sides ≤ wide.sides
  constant : narrow.constant.toInt.natAbs ≤ wide.constant.toInt.natAbs
  explosionDepth : narrow.explosionDepth = wide.explosionDepth

/-- The two limits cut a text at the same place, or the wide ones further on and neither cuts this
text. -/
def CutAlike (narrow wide : Limits) (input : String) : Prop :=
  narrow.inputLength = wide.inputLength ∨
    narrow.inputLength < wide.inputLength ∧ (trim input.toList).length ≤ narrow.inputLength

end Limits

variable {narrow wide : Limits} {rulebook : Rulebook}

theorem Formula.read_of_cutAlike {input : String} (h : narrow.CutAlike wide input) :
    read wide input = read narrow input := by
  have hsignificant : significant wide input.toList = significant narrow input.toList := by
    rcases h with hlength | ⟨hlt, hfits⟩
    · simp only [significant, hlength]
    · rw [significant_of_length_le hfits, significant_of_length_le (hfits.trans hlt.le)]
  simp only [read, hsignificant]

/-! ## Groups -/

namespace Rule

theorem check_of_widens {rule : Rule} {dice : Dice} (h : narrow.Widens wide)
    (hcheck : rule.check narrow dice = .ok ()) : rule.check wide dice = .ok () := by
  obtain ⟨hcount, hsides⟩ := check_eq_ok_iff.mp hcheck
  apply check_eq_ok_iff.mpr
  exact ⟨hcount.trans h.dice, fun hbounds => (hsides hbounds).trans h.sides⟩

/-- Behind its check, a rule is held to the explosion depth alone. -/
theorem roll_eq_of_widens {σ : Type} {rule : Rule} {literal : Literal} (h : narrow.Widens wide)
    (hcheck : rule.check narrow literal.dice = .ok ()) (source : Source σ) :
    rule.roll wide source literal = rule.roll narrow source literal := by
  have hextra : extraDraws wide literal.dice = extraDraws narrow literal.dice := by
    simp only [extraDraws, h.explosionDepth]
  simp only [Rule.roll, hcheck, check_of_widens h hcheck, rollStandard, hextra]

end Rule

/-! ## Formulas -/

namespace Table

open Token

theorem Admits.widen {token : Token} (h : narrow.Widens wide)
    (hadmits : Admits ⟨rulebook, narrow⟩ token) : Admits ⟨rulebook, wide⟩ token := by
  cases token with
  | number value => exact Nat.le_trans hadmits h.constant
  | dice literal =>
      obtain ⟨rule, hmem, hhandles, hcount, hsides⟩ := hadmits
      exact ⟨rule, hmem, hhandles, hcount.trans h.dice,
        fun hbounds => (hsides hbounds).trans h.sides⟩
  | operator op => trivial
  | leftParen => trivial
  | rightParen => trivial

end Table

theorem Expr.roll_eq_of_widens {σ : Type} {e : Expr} (h : narrow.Widens wide)
    (hall : ∀ t ∈ e.postOrder, Table.Admits ⟨rulebook, narrow⟩ t) (source : Source σ) :
    e.roll ⟨rulebook, wide⟩ source = e.roll ⟨rulebook, narrow⟩ source := by
  induction e with
  | number value => rfl
  | dice literal =>
      have hadmits := hall (.dice literal) (List.mem_singleton_self _)
      obtain ⟨rule, hrule⟩ := Table.exists_ruleFor_of_admits hadmits
      have hcheck := (Table.admits_dice_iff_check hrule).mp hadmits
      simp only [Expr.roll, hrule, Play.ofExcept_ok, pure_bind, Rule.roll_eq_of_widens h hcheck]
  | binary left op right ihl ihr =>
      simp only [Expr.postOrder, List.forall_mem_append] at hall
      simp only [Expr.roll, ihl hall.1.1, ihr hall.1.2]

namespace Table

theorem evaluate_of_widens {σ : Type} {formula : Formula} (h : narrow.Widens wide)
    (hcheck : check ⟨rulebook, narrow⟩ formula.tokens = .ok ()) (source : Source σ) :
    evaluate ⟨rulebook, wide⟩ source formula = evaluate ⟨rulebook, narrow⟩ source formula := by
  obtain ⟨tokens, text⟩ := formula
  obtain ⟨hreduces, hall⟩ := check_eq_ok_iff.mp hcheck
  obtain ⟨e, rfl⟩ := Expr.exists_postOrder_eq hreduces
  have hwide : check ⟨rulebook, wide⟩ e.postOrder = .ok () :=
    check_eq_ok_iff.mpr ⟨hreduces, fun t ht => (hall t ht).widen h⟩
  rw [evaluate_postOrder hcheck, evaluate_postOrder hwide, Expr.roll_eq_of_widens h hall]

theorem exists_formula_of_screen {table : Table} {input : String}
    (h : table.screen (.text input) = .ok ()) :
    ∃ formula, Formula.read table.limits input = .ok formula ∧
      table.check formula.tokens = .ok () := by
  simpa only [screen, bind_eq_ok_iff, Request.read] using h

/-- What the narrow limits do not refuse is rolled under the wide ones as it is under them, over
every source. -/
theorem roll_of_screen {σ : Type} {input : String} (h : narrow.Widens wide)
    (hcut : narrow.CutAlike wide input)
    (hscreen : screen ⟨rulebook, narrow⟩ (.text input) = .ok ()) (source : Source σ) :
    roll ⟨rulebook, wide⟩ source input = roll ⟨rulebook, narrow⟩ source input := by
  obtain ⟨formula, hread, hcheck⟩ := exists_formula_of_screen hscreen
  have hwide : Formula.read (Table.mk rulebook wide).limits input = .ok formula := by
    rw [← hread]
    exact Formula.read_of_cutAlike hcut
  calc roll ⟨rulebook, wide⟩ source input
      = evaluate ⟨rulebook, wide⟩ source formula := roll_of_read hwide source
    _ = evaluate ⟨rulebook, narrow⟩ source formula := evaluate_of_widens h hcheck source
    _ = roll ⟨rulebook, narrow⟩ source input := (roll_of_read hread source).symm

/-! ## Refusals -/

variable {table : Table} {e : Error}

theorem Offends.not_arithmetic {depth : Nat} {token : Token} (h : table.Offends depth token e) :
    ¬ e.Arithmetic := by
  rintro (rfl | rfl) <;> cases h

theorem FirstFault.not_arithmetic {depth : Nat} {tokens : List Token}
    (h : table.FirstFault depth tokens e) : ¬ e.Arithmetic := by
  rcases h with ⟨before, token, after, reached, -, -, -, hoff⟩ | ⟨reached, -, -, -, rfl⟩
  · exact hoff.not_arithmetic
  · rintro (h | h) <;> cases h

/-- No request is refused for what it comes to. -/
theorem not_arithmetic_of_screen {input : String} (h : table.screen (.text input) = .error e) :
    ¬ e.Arithmetic := by
  rcases bind_eq_error_iff.mp h with hread | ⟨formula, -, hcheck⟩
  · exact Formula.not_arithmetic_of_read hread
  · exact (check_eq_error_iff.mp hcheck).not_arithmetic

/-- The outcome of a request that is not refused: a roll, the error of an operator, or the error that
the source answered to the last draw. The record holds the latest draw first. -/
def Settled (result : Except Error Roll) (record : List Draw) : Prop :=
  match result with
  | .ok _ => True
  | .error e => e.Arithmetic ∨ ∃ sides, record.head? = some ⟨sides, .error e⟩

variable {σ : Type} {source : Source σ} {s s' : σ} {input : String} {result : Except Error Roll}
  {record : List Draw}

theorem screen_of_settled (hroll : table.roll source.recorded input (s, []) = (result, s', record))
    (hsettled : Settled result record) : table.screen (.text input) = .ok () := by
  cases hscreen : table.screen (.text input) with
  | ok _ => rfl
  | error e =>
      -- a refused request would have left the record empty
      have hanswer := answer_of_screen_eq_error hscreen source.recorded (s, [])
      rw [answer, hroll] at hanswer
      cases hanswer
      rcases hsettled with harithmetic | ⟨sides, hhead⟩
      · exact absurd harithmetic (not_arithmetic_of_screen hscreen)
      · cases hhead

/-- **Ceilings only refuse.** What a table settles under narrow limits it settles under wider ones in
the same way: with the same outcome, the same state after it and the same draws on record, and so it
does over every other source. -/
theorem roll_of_widens (hwidens : narrow.Widens wide) (hcut : narrow.CutAlike wide input)
    (hroll : roll ⟨rulebook, narrow⟩ source.recorded input (s, []) = (result, s', record))
    (hsettled : Settled result record) :
    roll ⟨rulebook, wide⟩ source.recorded input (s, []) = (result, s', record) ∧
    ∀ {τ : Type} (other : Source τ),
      roll ⟨rulebook, wide⟩ other input = roll ⟨rulebook, narrow⟩ other input := by
  have hscreen := screen_of_settled hroll hsettled
  refine ⟨?_, fun other => roll_of_screen hwidens hcut hscreen other⟩
  rw [roll_of_screen hwidens hcut hscreen, hroll]

/-- `2d6 / 0` fits exactly into the narrow limits. Both draw its dice before they fail. -/
theorem roll_of_widens_division :
    roll ⟨.full, { inputLength := 7, dice := 2, sides := 6, constant := 0 }⟩
        (Script.source []).recorded " 2d6 / 0 " (⟨[4, 1], .error⟩, []) =
      (.error .zeroDivision, ⟨[], .error⟩, [.face 6 1, .face 6 4]) ∧
    roll ⟨.full, { dice := 2, sides := 20, constant := -5 }⟩
        (Script.source []).recorded " 2d6 / 0 " (⟨[4, 1], .error⟩, []) =
      (.error .zeroDivision, ⟨[], .error⟩, [.face 6 1, .face 6 4]) := by
  have hnarrow : roll ⟨.full, { inputLength := 7, dice := 2, sides := 6, constant := 0 }⟩
      (Script.source []).recorded " 2d6 / 0 " (⟨[4, 1], .error⟩, []) =
      (.error .zeroDivision, ⟨[], .error⟩, [.face 6 1, .face 6 4]) := by
    have hread : Formula.read (Table.mk .full
        { inputLength := 7, dice := 2, sides := 6, constant := 0 }).limits " 2d6 / 0 " =
        .ok ⟨[.dice ⟨"2d6", .plain ⟨2, by decide, by decide⟩ ⟨6, by decide, by decide⟩ .standard⟩,
          .number 0, .operator .div], "2d6 / 0"⟩ := by
      decide +kernel
    rw [roll_of_read hread]
    rfl
  refine ⟨hnarrow, (roll_of_widens ?_ ?_ hnarrow (.inl (.inl rfl))).1⟩
  · exact ⟨by decide, by decide, by decide, rfl⟩
  · exact .inr ⟨by decide, by decide +kernel⟩

end Table

end DiceNotation
