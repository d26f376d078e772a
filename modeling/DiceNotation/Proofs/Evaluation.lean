import DiceNotation.Proofs.Check
import DiceNotation.Proofs.ExprShape
import DiceNotation.Source.Scripted

/-!
# The stack machine and the tree

A formula that passes the check is the post-order of one tree, and the run on the stack is the
evaluation of that tree. The equations are between computations, so they hold of the result, of the
state after it, and of a record of the draws.
-/

namespace DiceNotation

open Token

variable {σ : Type}

namespace Table

/-- Generalised over the stack below and the tokens behind: running the post-order of a tree pushes
the roll of that tree. -/
theorem run_postOrder (table : Table) (source : Source σ) (e : Expr) :
    ∀ (stack : List Roll) (rest : List Token),
      table.run source stack (e.postOrder ++ rest) =
        e.roll table source >>= fun roll => table.run source (roll :: stack) rest := by
  induction e with
  | number value =>
      intro stack rest
      simp [Expr.postOrder, Expr.roll, run, step]
  | dice literal =>
      intro stack rest
      simp [Expr.postOrder, Expr.roll, run, step]
  | binary left op right ihl ihr =>
      intro stack rest
      simp only [Expr.postOrder, List.append_assoc, ihl, ihr]
      simp [Expr.roll, run, step]

theorem run_postOrder_nil (table : Table) (source : Source σ) (e : Expr) :
    table.run source [] e.postOrder = e.roll table source := by
  have h := run_postOrder table source e [] []
  rw [List.append_nil] at h
  rw [h]
  simp [run]

theorem evaluate_of_check {table : Table} {formula : Formula}
    (hcheck : table.check formula.tokens = .ok ()) (source : Source σ) :
    table.evaluate source formula =
      (fun roll => { roll with label := formula.text }) <$>
        table.run source [] formula.tokens := by
  simp [evaluate, hcheck]

/-- A formula that is refused leaves the state as it is. -/
theorem evaluate_of_check_error {table : Table} {formula : Formula} {e : Error}
    (hcheck : table.check formula.tokens = .error e) (source : Source σ) (s : σ) :
    table.evaluate source formula s = (.error e, s) := by
  rw [evaluate, Play.bind_apply, hcheck]
  rfl

/-- A formula with a token that is not admitted is refused over every source, and for its first
fault. -/
theorem exists_fault_of_not_admits {table : Table} {formula : Formula} {token : Token}
    (hmem : token ∈ formula.tokens) (hnot : ¬ table.Admits token) :
    ∃ e, table.FirstFault 0 formula.tokens e ∧
      ∀ {σ : Type} (source : Source σ) (s : σ), table.evaluate source formula s = (.error e, s) := by
  cases hcheck : table.check formula.tokens with
  | ok _ => exact absurd ((check_eq_ok_iff.mp hcheck).2 token hmem) hnot
  | error e =>
      refine ⟨e, check_eq_error_iff.mp hcheck, ?_⟩
      intro σ source s
      exact evaluate_of_check_error hcheck source s

theorem check_of_evaluate {table : Table} {formula : Formula} {source : Source σ} {s s' : σ}
    {roll : Roll} (h : table.evaluate source formula s = (.ok roll, s')) :
    table.check formula.tokens = .ok () := by
  cases hcheck : table.check formula.tokens with
  | ok _ => rfl
  | error e =>
      rw [evaluate_of_check_error hcheck] at h
      cases h

theorem evaluate_postOrder {table : Table} {e : Expr}
    (hcheck : table.check e.postOrder = .ok ()) (source : Source σ) (text : String) :
    table.evaluate source ⟨e.postOrder, text⟩ =
      (fun roll => { roll with label := text }) <$> e.roll table source := by
  rw [evaluate_of_check hcheck, run_postOrder_nil]

/-- **The machine refines the tree.** The structural part of the check accepts the post-orders of
trees, each of one tree. Where the whole check passes, evaluating the formula is rolling its tree
under the formula's text: with the same result from the same state, the same state after it, and
the same draws on record. -/
theorem evaluate_eq_roll_tree (table : Table) (tokens : List Token) :
    (table.check tokens = .ok () ↔ Reduces tokens ∧ ∀ t ∈ tokens, table.Admits t) ∧
    (Reduces tokens ↔ ∃! e : Expr, e.postOrder = tokens) ∧
    ∀ e : Expr, e.postOrder = tokens → table.check tokens = .ok () →
      ∀ {σ : Type} (source : Source σ) (text : String),
        table.evaluate source ⟨tokens, text⟩ =
          (fun roll => { roll with label := text }) <$> e.roll table source ∧
        table.evaluate source.recorded ⟨tokens, text⟩ =
          (fun roll => { roll with label := text }) <$> e.roll table source.recorded := by
  refine ⟨check_eq_ok_iff, Expr.reduces_iff_existsUnique, ?_⟩
  rintro e rfl hcheck σ source text
  exact ⟨evaluate_postOrder hcheck source text, evaluate_postOrder hcheck source.recorded text⟩

/-- `10 - 1d6 * 3` -/
theorem evaluate_eq_roll_tree_difference :
    Table.evaluate {} (Script.source []).recorded ⟨[.number 10,
        .dice ⟨"1d6", .plain .one ⟨6, by decide, by decide⟩ .standard⟩, .number 3,
        .operator .mul, .operator .sub], "10 - 1d6 * 3"⟩ =
      (fun roll => { roll with label := "10 - 1d6 * 3" }) <$>
        (Expr.binary (.number 10) .sub (.binary
          (.dice ⟨"1d6", .plain .one ⟨6, by decide, by decide⟩ .standard⟩) .mul
          (.number 3))).roll {} (Script.source []).recorded :=
  ((evaluate_eq_roll_tree {} [.number 10,
    .dice ⟨"1d6", .plain .one ⟨6, by decide, by decide⟩ .standard⟩, .number 3,
    .operator .mul, .operator .sub]).2.2 _ rfl rfl (Script.source []) _).2

end Table

end DiceNotation
