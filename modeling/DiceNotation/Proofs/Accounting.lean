import DiceNotation.Proofs.OperandOrder
import DiceNotation.Proofs.Throws

/-!
# Draw accounting

Every draw of an evaluation belongs to one group of dice. A roll holds one block of draws for each
group of its expression, in the order of the groups: a rule makes one block, and an operator puts
the blocks of its right side behind those of its left side.
-/

namespace DiceNotation

/-- The roll and the draws behind it are those of the throws, one for each group of dice. -/
structure Accounts (table : Table) (tokens : List Token) (throws : List Throw) (roll : Roll)
    (draws : List Draw) : Prop where
  literals : throws.map Throw.literal = tokens.filterMap Token.literal?
  rules : ∀ t ∈ throws, table.rulebook.ruleFor t.literal = .ok t.rule
  calls : draws = throws.flatMap Throw.calls
  shown : roll.draws = throws.flatMap Throw.shown

theorem Accounts.length_draws {table : Table} {tokens : List Token} {throws : List Throw}
    {roll : Roll} {draws : List Draw} (h : Accounts table tokens throws roll draws) :
    draws.length = roll.draws.length := by
  rw [h.calls, h.shown, List.length_flatMap, List.length_flatMap]
  simp only [Throw.length_calls]

/-- The throws that settle an expression account for its draws. -/
theorem Expr.Settles.accounts {table : Table} {e : Expr} {throws : List Throw} {roll : Roll}
    (h : Expr.Settles table e throws roll) :
    Accounts table e.postOrder throws roll (throws.flatMap Throw.calls) := by
  induction h with
  | number value => exact ⟨rfl, by simp, rfl, rfl⟩
  | dice t hrule hcomplete =>
      exact ⟨rfl, by simpa using hrule, rfl, by simpa using t.draws_roll⟩
  | binary _ _ hcombine ihl ihr =>
      exact {
        literals := by
          simp [Expr.postOrder, ihl.literals, ihr.literals, Token.literal?]
        rules := List.forall_mem_append.mpr ⟨ihl.rules, ihr.rules⟩
        calls := rfl
        shown := by
          rw [Roll.combine_draws hcombine, ihl.shown, ihr.shown, List.flatMap_append] }

open Play

namespace Table

/-- What an evaluation may do once the check has passed. -/
theorem yields_evaluate {table : Table} {formula : Formula}
    (hcheck : table.check formula.tokens = .ok ()) :
    Yields (fun _ source => table.evaluate source formula) Error.Arithmetic
      (fun roll draws => ∃ throws, Accounts table formula.tokens throws roll draws) := by
  refine (yields_settled hcheck).mono (fun _ h => h) ?_
  rintro roll draws ⟨e, throws, raw, htokens, hsettles, rfl, rfl⟩
  have h := hsettles.accounts
  rw [htokens] at h
  exact ⟨throws, h.literals, h.rules, h.calls, h.shown⟩

/-- **Draw accounting.** The draws of a successful evaluation are the calls of one throw for each
group of dice, block by block in post-order, and the roll shows the faces of these throws in the
same order. A formula that comes from infix tokens has its groups in their order there. -/
theorem draws_of_evaluate {table : Table} {formula : Formula} {σ : Type} {source : Source σ}
    {s s' : σ} {roll : Roll} (h : table.evaluate source formula s = (.ok roll, s'))
    (record : List Draw) :
    ∃ throws : List Throw,
      throws.map Throw.literal = formula.tokens.filterMap Token.literal? ∧
      (∀ t ∈ throws, t.faces ≠ [] ∧ table.rulebook.ruleFor t.literal = .ok t.rule) ∧
      table.evaluate source.recorded formula (s, record) =
        (.ok roll, s', (throws.flatMap Throw.calls).reverse ++ record) ∧
      roll.draws = throws.flatMap Throw.shown ∧
      (throws.flatMap Throw.calls).length = roll.draws.length ∧
      ∀ tokens, PostOrder.ofInfix tokens = .ok formula.tokens →
        throws.map Throw.literal = tokens.filterMap Token.literal? := by
  have hcheck := check_of_evaluate h
  obtain ⟨draws, hrun, hends⟩ := yields_evaluate hcheck σ source s record
  simp only [h] at hrun hends
  cases hends with
  | value hall hpost =>
      obtain ⟨throws, haccounts⟩ := hpost
      have hlength := haccounts.length_draws
      obtain ⟨hliterals, hrules, rfl, hshown⟩ := haccounts
      refine ⟨throws, hliterals, ?_, hrun, hshown, hlength, ?_⟩
      · exact fun t ht => ⟨t.faces_ne_nil, hrules t ht⟩
      · intro tokens htokens
        rw [hliterals, PostOrder.literals_of_ofInfix htokens]

/-- `1d6 * (2dF + 1)` where the source answers 5, 1, 3. -/
theorem draws_of_evaluate_fudge :
    ∃ throws : List Throw, throws.map Throw.literal =
        [⟨"1d6", .plain .one ⟨6, by decide, by decide⟩ .standard⟩,
          ⟨"2dF", .plain ⟨2, by decide, by decide⟩ ⟨3, by decide, by decide⟩ .fudge⟩] ∧
      (throws.flatMap Throw.calls).length = 3 ∧ [5, -1, 1] = throws.flatMap Throw.shown := by
  obtain ⟨throws, hliterals, -, -, hshown, hlength, -⟩ :=
    @draws_of_evaluate {} ⟨[.dice ⟨"1d6", .plain .one ⟨6, by decide, by decide⟩ .standard⟩,
      .dice ⟨"2dF", .plain ⟨2, by decide, by decide⟩ ⟨3, by decide, by decide⟩ .fudge⟩,
      .number 1, .operator .add, .operator .mul], "1d6 * (2dF + 1)"⟩ Script
      (Script.source []) ⟨[5, 1, 3], .error⟩ ⟨[], .error⟩
      ⟨5, [5, -1, 1], [], 0, "1d6 * (2dF + 1)", [⟨1, .fudge⟩]⟩ (by rfl) []
  exact ⟨throws, hliterals, hlength, hshown⟩

end Table

end DiceNotation
