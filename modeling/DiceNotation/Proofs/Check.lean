import DiceNotation.Expr
import DiceNotation.Proofs.Sequence

/-!
# What the check refuses

The check of a table in two parts: which tokens the limits and the rulebook admit, whatever stands
around them, and whether the tokens reduce to a single value. A list that is refused is refused for
its first fault.
-/

namespace DiceNotation

namespace Rule

/-- The rules that hold a group to the ceiling on faces. -/
def boundsSides (rule : Rule) : Prop :=
  rule = standard ∨ rule = duality

/-- No kind of dice has two rules. -/
theorem handles_unique {rule other : Rule} {kind : DiceKind}
    (h : rule.handles kind = true) (h' : other.handles kind = true) : rule = other := by
  cases rule <;> cases other <;> cases kind <;> simp_all [handles]

theorem checkCount_eq_ok_iff {limits : Limits} {dice : Dice} :
    checkCount limits dice = .ok () ↔ dice.count.val ≤ limits.dice := by
  unfold checkCount
  split <;> simp_all

theorem checkCount_eq_error_iff {limits : Limits} {dice : Dice} {e : Error} :
    checkCount limits dice = .error e ↔
      limits.dice < dice.count.val ∧ e = .diceCount dice.count.val limits.dice := by
  by_cases h : dice.count.val ≤ limits.dice
  · simp [checkCount, h, Nat.not_lt.mpr h]
  · simp [checkCount, h, Nat.lt_of_not_le h, eq_comm]

theorem checkSides_eq_ok_iff {limits : Limits} {dice : Dice} :
    checkSides limits dice = .ok () ↔ dice.sides.val ≤ limits.sides := by
  unfold checkSides
  split <;> simp_all

theorem checkSides_eq_error_iff {limits : Limits} {dice : Dice} {e : Error} :
    checkSides limits dice = .error e ↔
      limits.sides < dice.sides.val ∧ e = .diceSides dice.sides.val limits.sides := by
  by_cases h : dice.sides.val ≤ limits.sides
  · simp [checkSides, h, Nat.not_lt.mpr h]
  · simp [checkSides, h, Nat.lt_of_not_le h, eq_comm]

theorem check_eq_ok_iff {rule : Rule} {limits : Limits} {dice : Dice} :
    rule.check limits dice = .ok () ↔
      dice.count.val ≤ limits.dice ∧ (rule.boundsSides → dice.sides.val ≤ limits.sides) := by
  have hboth : (do checkCount limits dice; checkSides limits dice) = Except.ok () ↔
      dice.count.val ≤ limits.dice ∧ dice.sides.val ≤ limits.sides := by
    rw [bind_eq_ok_iff, ← checkCount_eq_ok_iff, ← checkSides_eq_ok_iff]
    exact ⟨fun ⟨_, h⟩ => h, fun h => ⟨(), h⟩⟩
  cases rule
  case standard => simpa [check, boundsSides] using hboth
  case duality => simpa [check, boundsSides] using hboth
  case fudge => simpa [check, boundsSides] using checkCount_eq_ok_iff
  case faction => simpa [check, boundsSides] using checkCount_eq_ok_iff

/-- The count is looked at before the faces. -/
theorem check_eq_error_iff {rule : Rule} {limits : Limits} {dice : Dice} {e : Error} :
    rule.check limits dice = .error e ↔
      (limits.dice < dice.count.val ∧ e = .diceCount dice.count.val limits.dice) ∨
      (rule.boundsSides ∧ dice.count.val ≤ limits.dice ∧ limits.sides < dice.sides.val ∧
        e = .diceSides dice.sides.val limits.sides) := by
  have hboth : (do checkCount limits dice; checkSides limits dice) = Except.error e ↔
      (limits.dice < dice.count.val ∧ e = .diceCount dice.count.val limits.dice) ∨
      (dice.count.val ≤ limits.dice ∧ limits.sides < dice.sides.val ∧
        e = .diceSides dice.sides.val limits.sides) := by
    rw [bind_eq_error_iff, checkCount_eq_error_iff, ← checkSides_eq_error_iff,
      ← checkCount_eq_ok_iff]
    exact or_congr_right ⟨fun ⟨_, h⟩ => h, fun h => ⟨(), h⟩⟩
  cases rule
  case standard => simpa [check, boundsSides] using hboth
  case duality => simpa [check, boundsSides] using hboth
  case fudge => simpa [check, boundsSides] using checkCount_eq_error_iff
  case faction => simpa [check, boundsSides] using checkCount_eq_error_iff

end Rule

namespace Rulebook

theorem ruleFor_eq_ok_iff {rulebook : Rulebook} {literal : Literal} {rule : Rule} :
    rulebook.ruleFor literal = .ok rule ↔
      rule ∈ rulebook.rules ∧ rule.handles literal.dice.kind = true := by
  unfold ruleFor
  cases hfind : rulebook.rules.find? (·.handles literal.dice.kind) with
  | none =>
      have hnone := List.find?_eq_none.mp hfind
      simp only [reduceCtorEq, false_iff, not_and]
      exact hnone rule
  | some found =>
      have hmem := List.mem_of_find?_eq_some hfind
      have hhandles := List.find?_some hfind
      simp only [Except.ok.injEq]
      constructor
      · rintro rfl
        exact ⟨hmem, hhandles⟩
      · rintro ⟨_, h⟩
        exact Rule.handles_unique hhandles h

theorem ruleFor_eq_error_iff {rulebook : Rulebook} {literal : Literal} {e : Error} :
    rulebook.ruleFor literal = .error e ↔
      (∀ rule ∈ rulebook.rules, rule.handles literal.dice.kind = false) ∧
        e = .noRule literal.text := by
  unfold ruleFor
  cases hfind : rulebook.rules.find? (·.handles literal.dice.kind) with
  | none =>
      have hnone : ∀ rule ∈ rulebook.rules, rule.handles literal.dice.kind = false := by
        simpa using hfind
      constructor
      · intro h
        cases h
        exact ⟨hnone, rfl⟩
      · rintro ⟨_, rfl⟩
        rfl
  | some found =>
      have hmem := List.mem_of_find?_eq_some hfind
      have hhandles := List.find?_some hfind
      simp only [reduceCtorEq, false_iff, not_and]
      intro h
      simp [h found hmem] at hhandles

end Rulebook

namespace Token

theorem waiting?_cons (depth : Nat) (token : Token) (tokens : List Token) :
    waiting? depth (token :: tokens) = (waiting? depth [token]).bind (waiting? · tokens) := by
  cases token with
  | operator op => by_cases h : depth < 2 <;> simp [waiting?, h]
  | _ => rfl

end Token

namespace Table

open Token

/-- The limits and the rulebook have room for the token, whatever stands around it. -/
def Admits (table : Table) : Token → Prop
  | .number value => value.toInt.natAbs ≤ table.limits.constant.toInt.natAbs
  | .dice literal =>
      ∃ rule ∈ table.rulebook.rules, rule.handles literal.dice.kind = true ∧
        literal.dice.count.val ≤ table.limits.dice ∧
        (rule.boundsSides → literal.dice.sides.val ≤ table.limits.sides)
  | _ => True

/-- `Offends table depth token e`: the token may not stand where `depth` operands wait, and `e`
says why. -/
inductive Offends (table : Table) (depth : Nat) : Token → Error → Prop
  | constant {value : Int64} (h : table.limits.constant.toInt.natAbs < value.toInt.natAbs) :
      Offends table depth (.number value) (.constant value table.limits.constant)
  | noRule {literal : Literal}
      (h : ∀ rule ∈ table.rulebook.rules, rule.handles literal.dice.kind = false) :
      Offends table depth (.dice literal) (.noRule literal.text)
  | count {literal : Literal} {rule : Rule} (hmem : rule ∈ table.rulebook.rules)
      (hhandles : rule.handles literal.dice.kind = true)
      (h : table.limits.dice < literal.dice.count.val) :
      Offends table depth (.dice literal)
        (.diceCount literal.dice.count.val table.limits.dice)
  | sides {literal : Literal} {rule : Rule} (hmem : rule ∈ table.rulebook.rules)
      (hhandles : rule.handles literal.dice.kind = true) (hbounds : rule.boundsSides)
      (hcount : literal.dice.count.val ≤ table.limits.dice)
      (h : table.limits.sides < literal.dice.sides.val) :
      Offends table depth (.dice literal)
        (.diceSides literal.dice.sides.val table.limits.sides)
  | missingOperand {op : Operator} (h : depth < 2) :
      Offends table depth (.operator op) (.missingOperand op)
  | leftParen : Offends table depth .leftParen .strayParen
  | rightParen : Offends table depth .rightParen .strayParen

/-- Why the tokens are refused where `depth` operands wait: an offending token behind tokens that
do not offend, or else a number of operands at the end that is not one. -/
def FirstFault (table : Table) (depth : Nat) (tokens : List Token) (e : Error) : Prop :=
  (∃ before token after reached, tokens = before ++ token :: after ∧
    waiting? depth before = some reached ∧ (∀ t ∈ before, table.Admits t) ∧
    table.Offends reached token e) ∨
  (∃ reached, waiting? depth tokens = some reached ∧ (∀ t ∈ tokens, table.Admits t) ∧
    reached ≠ 1 ∧ e = .notSingleValue)

variable {table : Table} {depth next : Nat} {token : Token} {tokens : List Token} {e : Error}

theorem admits_dice_iff_check {literal : Literal} {rule : Rule}
    (hrule : table.rulebook.ruleFor literal = .ok rule) :
    table.Admits (.dice literal) ↔ rule.check table.limits literal.dice = .ok () := by
  obtain ⟨hmem, hhandles⟩ := Rulebook.ruleFor_eq_ok_iff.mp hrule
  rw [Rule.check_eq_ok_iff]
  constructor
  · rintro ⟨other, -, hother, hlimits⟩
    rwa [Rule.handles_unique hhandles hother]
  · intro hlimits
    exact ⟨rule, hmem, hhandles, hlimits⟩

theorem exists_ruleFor_of_admits {literal : Literal} (h : table.Admits (.dice literal)) :
    ∃ rule, table.rulebook.ruleFor literal = .ok rule := by
  obtain ⟨rule, hmem, hhandles, -⟩ := h
  exact ⟨rule, Rulebook.ruleFor_eq_ok_iff.mpr ⟨hmem, hhandles⟩⟩

theorem checkToken_eq_ok_iff :
    table.checkToken depth token = .ok next ↔
      table.Admits token ∧ waiting? depth [token] = some next := by
  cases token with
  | number value =>
      by_cases h : value.toInt.natAbs ≤ table.limits.constant.toInt.natAbs <;>
        simp [checkToken, Admits, waiting?, h]
  | dice literal =>
      rw [checkToken, bind_eq_ok_iff]
      constructor
      · rintro ⟨rule, hrule, h⟩
        obtain ⟨_, hcheck, hdepth⟩ := bind_eq_ok_iff.mp h
        cases hdepth
        exact ⟨(admits_dice_iff_check hrule).mpr hcheck, rfl⟩
      · rintro ⟨hadmits, hdepth⟩
        cases hdepth
        obtain ⟨rule, hrule⟩ := exists_ruleFor_of_admits hadmits
        have hcheck := (admits_dice_iff_check hrule).mp hadmits
        exact ⟨rule, hrule, bind_eq_ok_iff.mpr ⟨(), hcheck, rfl⟩⟩
  | operator op => by_cases h : depth < 2 <;> simp [checkToken, Admits, waiting?, h]
  | leftParen => simp [checkToken, waiting?]
  | rightParen => simp [checkToken, waiting?]

theorem checkToken_of_check_eq_error {literal : Literal} {rule : Rule}
    (hrule : table.rulebook.ruleFor literal = .ok rule)
    (hcheck : rule.check table.limits literal.dice = .error e) :
    table.checkToken depth (.dice literal) = .error e := by
  refine bind_eq_error_iff.mpr (.inr ⟨rule, hrule, ?_⟩)
  exact bind_eq_error_iff.mpr (.inl hcheck)

theorem checkToken_eq_error_iff :
    table.checkToken depth token = .error e ↔ table.Offends depth token e := by
  constructor
  · intro h
    cases token with
    | number value =>
        simp only [checkToken] at h
        split at h
        · cases h
        · rename_i hlarge
          cases h
          exact .constant (Nat.lt_of_not_le hlarge)
    | dice literal =>
        rw [checkToken, bind_eq_error_iff] at h
        rcases h with hrule | ⟨rule, hrule, h⟩
        · obtain ⟨hnone, rfl⟩ := Rulebook.ruleFor_eq_error_iff.mp hrule
          exact .noRule hnone
        · obtain ⟨hmem, hhandles⟩ := Rulebook.ruleFor_eq_ok_iff.mp hrule
          rcases bind_eq_error_iff.mp h with hcheck | ⟨_, -, hdepth⟩
          · rcases Rule.check_eq_error_iff.mp hcheck with
              ⟨hcount, rfl⟩ | ⟨hbounds, hcount, hsides, rfl⟩
            · exact .count hmem hhandles hcount
            · exact .sides hmem hhandles hbounds hcount hsides
          · cases hdepth
    | operator op =>
        simp only [checkToken] at h
        split at h
        · rename_i hfew
          cases h
          exact .missingOperand hfew
        · cases h
    | leftParen => cases h; exact .leftParen
    | rightParen => cases h; exact .rightParen
  · intro h
    cases h with
    | constant h => simp [checkToken, Nat.not_le.mpr h]
    | noRule h =>
        exact bind_eq_error_iff.mpr (.inl (Rulebook.ruleFor_eq_error_iff.mpr ⟨h, rfl⟩))
    | count hmem hhandles h =>
        exact checkToken_of_check_eq_error (Rulebook.ruleFor_eq_ok_iff.mpr ⟨hmem, hhandles⟩)
          (Rule.check_eq_error_iff.mpr (.inl ⟨h, rfl⟩))
    | sides hmem hhandles hbounds hcount h =>
        exact checkToken_of_check_eq_error (Rulebook.ruleFor_eq_ok_iff.mpr ⟨hmem, hhandles⟩)
          (Rule.check_eq_error_iff.mpr (.inr ⟨hbounds, hcount, h, rfl⟩))
    | missingOperand h => simp [checkToken, h]
    | leftParen => rfl
    | rightParen => rfl

/-- The check goes on behind tokens that it has nothing against. -/
theorem checkFrom_append {before : List Token} {reached : Nat}
    (hbefore : waiting? depth before = some reached) (hall : ∀ t ∈ before, table.Admits t)
    (rest : List Token) :
    table.checkFrom depth (before ++ rest) = table.checkFrom reached rest := by
  induction before generalizing depth with
  | nil =>
      cases hbefore
      rfl
  | cons token before ih =>
      rw [waiting?_cons] at hbefore
      obtain ⟨next, hnext, hrest⟩ := Option.bind_eq_some_iff.mp hbefore
      obtain ⟨hadmits, hall⟩ := List.forall_mem_cons.mp hall
      rw [List.cons_append, checkFrom, checkToken_eq_ok_iff.mpr ⟨hadmits, hnext⟩]
      exact ih hrest hall

theorem FirstFault.cons (hadmits : table.Admits token)
    (hnext : waiting? depth [token] = some next) (h : table.FirstFault next tokens e) :
    table.FirstFault depth (token :: tokens) e := by
  rcases h with ⟨before, t, after, reached, rfl, hbefore, hall, hoff⟩ |
    ⟨reached, hreached, hall, hone, rfl⟩
  · refine .inl ⟨token :: before, t, after, reached, rfl, ?_, ?_, hoff⟩
    · rw [waiting?_cons, hnext]
      exact hbefore
    · exact List.forall_mem_cons.mpr ⟨hadmits, hall⟩
  · refine .inr ⟨reached, ?_, List.forall_mem_cons.mpr ⟨hadmits, hall⟩, hone, rfl⟩
    rw [waiting?_cons, hnext]
    exact hreached

theorem waiting?_of_checkFrom_eq_ok (h : table.checkFrom depth tokens = .ok ()) :
    waiting? depth tokens = some 1 ∧ ∀ t ∈ tokens, table.Admits t := by
  induction tokens generalizing depth with
  | nil =>
      by_cases hone : depth = 1
      · exact ⟨congrArg some hone, by simp⟩
      · simp [checkFrom, hone] at h
  | cons token tokens ih =>
      rw [checkFrom] at h
      obtain ⟨next, htoken, hcheck⟩ := bind_eq_ok_iff.mp h
      obtain ⟨hadmits, hnext⟩ := checkToken_eq_ok_iff.mp htoken
      obtain ⟨hrest, hall⟩ := ih hcheck
      rw [waiting?_cons, hnext]
      exact ⟨hrest, List.forall_mem_cons.mpr ⟨hadmits, hall⟩⟩

theorem firstFault_of_checkFrom_eq_error (h : table.checkFrom depth tokens = .error e) :
    table.FirstFault depth tokens e := by
  induction tokens generalizing depth with
  | nil =>
      by_cases hone : depth = 1
      · simp [checkFrom, hone] at h
      · simp only [checkFrom, if_neg hone, Except.error.injEq] at h
        exact .inr ⟨depth, rfl, by simp, hone, h.symm⟩
  | cons token tokens ih =>
      rw [checkFrom] at h
      rcases bind_eq_error_iff.mp h with htoken | ⟨next, htoken, hcheck⟩
      · have hoff := checkToken_eq_error_iff.mp htoken
        exact .inl ⟨[], token, tokens, depth, rfl, rfl, by simp, hoff⟩
      · obtain ⟨hadmits, hnext⟩ := checkToken_eq_ok_iff.mp htoken
        exact (ih hcheck).cons hadmits hnext

theorem check_eq_ok_iff :
    table.check tokens = .ok () ↔ Reduces tokens ∧ ∀ t ∈ tokens, table.Admits t := by
  constructor
  · exact waiting?_of_checkFrom_eq_ok
  · rintro ⟨hreduces, hall⟩
    simpa [check, checkFrom] using checkFrom_append hreduces hall []

/-- The check names the first fault and nothing else. -/
theorem check_eq_error_iff :
    table.check tokens = .error e ↔ table.FirstFault 0 tokens e := by
  constructor
  · exact firstFault_of_checkFrom_eq_error
  · rintro (⟨before, token, after, reached, rfl, hbefore, hall, hoff⟩ |
      ⟨reached, hreached, hall, hone, rfl⟩)
    · rw [check, checkFrom_append hbefore hall, checkFrom, checkToken_eq_error_iff.mpr hoff]
      rfl
    · have hend := checkFrom_append hreached hall []
      rw [List.append_nil] at hend
      rw [check, hend, checkFrom, if_neg hone]

end Table

end DiceNotation
