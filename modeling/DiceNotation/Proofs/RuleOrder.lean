import DiceNotation.Proofs.Evaluation

/-!
# The order of the rules

A rulebook is a list, and a group of dice is rolled by the first rule in it that handles the group.
No kind of dice has two rules, so the first one is the only one, and two rulebooks with the same
rules are worth the same: the check refuses the same tokens, and the run makes the same steps.
-/

namespace DiceNotation

namespace Rulebook

variable {first second : Rulebook}

/-- The rules are the same, in whatever order and however often each is listed. -/
def SameRules (first second : Rulebook) : Prop :=
  ∀ rule, rule ∈ first.rules ↔ rule ∈ second.rules

theorem SameRules.ruleFor_eq (h : first.SameRules second) : first.ruleFor = second.ruleFor := by
  funext literal
  cases hrule : second.ruleFor literal with
  | ok rule =>
      obtain ⟨hmem, hhandles⟩ := ruleFor_eq_ok_iff.mp hrule
      exact ruleFor_eq_ok_iff.mpr ⟨(h rule).mpr hmem, hhandles⟩
  | error e =>
      obtain ⟨hnone, he⟩ := ruleFor_eq_error_iff.mp hrule
      exact ruleFor_eq_error_iff.mpr ⟨fun rule hmem => hnone rule ((h rule).mp hmem), he⟩

end Rulebook

namespace Table

open Rulebook

variable {first second : Rulebook} {σ : Type}

/-! ## The check -/

theorem checkToken_of_sameRules (h : first.SameRules second) (limits : Limits) (depth : Nat)
    (token : Token) :
    checkToken ⟨first, limits⟩ depth token = checkToken ⟨second, limits⟩ depth token := by
  cases token with
  | dice literal => simp only [checkToken, h.ruleFor_eq]
  | _ => rfl

theorem checkFrom_of_sameRules (h : first.SameRules second) (limits : Limits) (depth : Nat)
    (tokens : List Token) :
    checkFrom ⟨first, limits⟩ depth tokens = checkFrom ⟨second, limits⟩ depth tokens := by
  induction tokens generalizing depth with
  | nil => rfl
  | cons token tokens ih => simp only [checkFrom, checkToken_of_sameRules h, ih]

/-! ## The run -/

theorem step_of_sameRules (h : first.SameRules second) (limits : Limits) (source : Source σ)
    (stack : List Roll) (token : Token) :
    step ⟨first, limits⟩ source stack token = step ⟨second, limits⟩ source stack token := by
  cases token with
  | dice literal => simp only [step, h.ruleFor_eq]
  | _ => rfl

theorem run_of_sameRules (h : first.SameRules second) (limits : Limits) (source : Source σ)
    (stack : List Roll) (tokens : List Token) :
    run ⟨first, limits⟩ source stack tokens = run ⟨second, limits⟩ source stack tokens := by
  induction tokens generalizing stack with
  | nil => rfl
  | cons token tokens ih => simp only [run, step_of_sameRules h, ih]

theorem evaluate_of_sameRules (h : first.SameRules second) (limits : Limits) (source : Source σ)
    (formula : Formula) :
    evaluate ⟨first, limits⟩ source formula = evaluate ⟨second, limits⟩ source formula := by
  simp only [evaluate, check, checkFrom_of_sameRules h, run_of_sameRules h]

theorem not_admits_of_no_rule {table : Table} {literal : Literal}
    (h : ∀ rule ∈ table.rulebook.rules, rule.handles literal.dice.kind = false) :
    ¬ table.Admits (.dice literal) := by
  rintro ⟨rule, hmem, hhandles, -⟩
  rw [h rule hmem] at hhandles
  cases hhandles

/-- **A rulebook is the set of its rules.** Tables whose rulebooks have the same rules, in any order
and with any repetition, evaluate every formula in the same way: with the same result, the same state
after it and the same draws on record. A formula with a group for which there is no rule is refused
before anything is drawn. -/
theorem evaluate_rule_order (limits : Limits) (formula : Formula) :
    (∀ first second : Rulebook, first.SameRules second → ∀ {σ : Type} (source : Source σ),
      evaluate ⟨first, limits⟩ source formula = evaluate ⟨second, limits⟩ source formula ∧
      evaluate ⟨first, limits⟩ source.recorded formula =
        evaluate ⟨second, limits⟩ source.recorded formula) ∧
    ∀ (rulebook : Rulebook) (literal : Literal), Token.dice literal ∈ formula.tokens →
      (∀ rule ∈ rulebook.rules, rule.handles literal.dice.kind = false) →
      ∃ e, FirstFault ⟨rulebook, limits⟩ 0 formula.tokens e ∧
        ∀ {σ : Type} (source : Source σ) (s : σ) (record : List Draw),
          evaluate ⟨rulebook, limits⟩ source formula s = (.error e, s) ∧
          evaluate ⟨rulebook, limits⟩ source.recorded formula (s, record) =
            (.error e, s, record) := by
  constructor
  · intro first second h σ source
    exact ⟨evaluate_of_sameRules h limits source formula,
      evaluate_of_sameRules h limits source.recorded formula⟩
  · intro rulebook literal hmem hnone
    have hnot := @not_admits_of_no_rule ⟨rulebook, limits⟩ literal hnone
    obtain ⟨e, hfault, hrefused⟩ := exists_fault_of_not_admits hmem hnot
    refine ⟨e, hfault, ?_⟩
    intro σ source s record
    exact ⟨hrefused source s, hrefused source.recorded (s, record)⟩

/-- `1d6 + 2dF` under the full rulebook turned round with a rule twice in it, and under one without
the rule for fudge dice, which refuses the formula although its first group has a rule. -/
theorem evaluate_rule_order_fudge :
    let formula : Formula := ⟨[.dice ⟨"1d6", .plain .one ⟨6, by decide, by decide⟩ .standard⟩,
      .dice ⟨"2dF", .plain ⟨2, by decide, by decide⟩ ⟨3, by decide, by decide⟩ .fudge⟩,
      .operator .add], "1d6 + 2dF"⟩
    evaluate ⟨⟨[.standard, .faction, .standard, .fudge, .duality]⟩, {}⟩ (Script.source []).recorded
        formula (⟨[4, 3, 2], .error⟩, []) =
      (.ok ⟨5, [4, 1, 0], [], 0, "1d6 + 2dF", [⟨1, .fudge⟩]⟩, ⟨[], .error⟩,
        [⟨3, .ok 2⟩, ⟨3, .ok 3⟩, ⟨6, .ok 4⟩]) ∧
    ∃ e, evaluate ⟨⟨[.standard, .duality]⟩, {}⟩ (Script.source []).recorded formula
      (⟨[4, 3, 2], .error⟩, []) = (.error e, ⟨[4, 3, 2], .error⟩, []) := by
  intro formula
  have hsame : SameRules ⟨[.standard, .faction, .standard, .fudge, .duality]⟩ .full := by
    intro rule
    cases rule <;> decide
  obtain ⟨hsameRules, hmissing⟩ := evaluate_rule_order {} formula
  refine ⟨?_, ?_⟩
  · rw [(hsameRules _ _ hsame (Script.source [])).2]
    rfl
  · obtain ⟨e, -, hrefused⟩ := hmissing ⟨[.standard, .duality]⟩
      ⟨"2dF", .plain ⟨2, by decide, by decide⟩ ⟨3, by decide, by decide⟩ .fudge⟩
      (List.mem_cons_of_mem _ List.mem_cons_self) (by decide)
    exact ⟨e, (hrefused (Script.source []) ⟨[4, 3, 2], .error⟩ []).2⟩

end Table

end DiceNotation
