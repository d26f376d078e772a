import DiceNotation.Proofs.Check
import DiceNotation.Proofs.OperandOrder
import DiceNotation.Proofs.Parentheses
import Mathlib.Data.List.Forall2

/-!
# Lists that no grammar derives

Of a list of tokens the pass to post-order asks only that its parentheses are balanced. It also takes
operands side by side, operators at the ends and empty parentheses, and passes them on: operands keep
their order, and an operator may wait but never overtakes an operand. An operator that comes late
finds no fewer operands in front of it, so a list that is in post-order but for its parentheses still
reduces to a single value.
-/

namespace DiceNotation

namespace Token

def operator? : Token → Option Operator
  | operator op => some op
  | _ => none

def isParen : Token → Bool
  | leftParen | rightParen => true
  | _ => false

/-- With `depth` parentheses open in front of the tokens, none is closed before it is opened, and
none stays open. -/
structure Balanced (depth : Nat) (tokens : List Token) : Prop where
  closed_le : ∀ before, before <+: tokens →
    before.count .rightParen ≤ depth + before.count .leftParen
  settled : depth + tokens.count .leftParen = tokens.count .rightParen

/-- For each operator in order, how many operands stand in front of it, if `seen` of them stand in
front of the tokens. -/
def operandsBefore (seen : Nat) : List Token → List Nat
  | [] => []
  | .operator _ :: tokens => seen :: operandsBefore seen tokens
  | .number _ :: tokens | .dice _ :: tokens => operandsBefore (seen + 1) tokens
  | .leftParen :: tokens | .rightParen :: tokens => operandsBefore seen tokens

variable {depth seen : Nat} {token : Token} {tokens before after : List Token} {op : Operator}

/-! ## Parentheses -/

theorem count_cons_eq (token kind : Token) (tokens : List Token) :
    (token :: tokens).count kind = [token].count kind + tokens.count kind := by
  rw [← List.count_append, List.singleton_append]

theorem balanced_nil_iff : Balanced depth [] ↔ depth = 0 := by
  constructor
  · intro h
    exact h.settled
  · rintro rfl
    exact ⟨by simp, rfl⟩

theorem balanced_cons_iff : Balanced depth (token :: tokens) ↔
    ∃ next, depth + [token].count .leftParen = next + [token].count .rightParen ∧
      Balanced next tokens := by
  constructor
  · rintro ⟨hclosed, hsettled⟩
    have hfirst := hclosed [token] (List.prefix_append [token] tokens)
    rw [count_cons_eq token _ tokens, count_cons_eq token _ tokens] at hsettled
    refine ⟨depth + [token].count .leftParen - [token].count .rightParen, by omega, ?_, by omega⟩
    intro before hbefore
    have hle := hclosed (token :: before) ((List.prefix_cons_inj token).mpr hbefore)
    rw [count_cons_eq token _ before, count_cons_eq token _ before] at hle
    omega
  · rintro ⟨next, hnext, hclosed, hsettled⟩
    constructor
    · intro before hbefore
      rcases List.prefix_cons_iff.mp hbefore with rfl | ⟨rest, rfl, hrest⟩
      · exact Nat.zero_le _
      · have hle := hclosed rest hrest
        rw [count_cons_eq token _ rest, count_cons_eq token _ rest]
        omega
    · rw [count_cons_eq token _ tokens, count_cons_eq token _ tokens]
      omega

/-! ## Operators -/

theorem operandsBefore_add (seen more : Nat) (tokens : List Token) :
    operandsBefore (seen + more) tokens = (operandsBefore seen tokens).map (· + more) := by
  induction tokens generalizing seen with
  | nil => rfl
  | cons token tokens ih =>
      cases token with
      | number value | dice literal =>
          simp only [operandsBefore, ← ih]
          congr 1
          omega
      | operator op => simp only [operandsBefore, ih, List.map_cons]
      | leftParen | rightParen => exact ih seen

theorem operandsBefore_append (seen : Nat) (before after : List Token) :
    operandsBefore seen (before ++ after) =
      operandsBefore seen before ++ operandsBefore (seen + before.countP isOperand) after := by
  induction before generalizing seen with
  | nil => rfl
  | cons token before ih =>
      cases token with
      | number value | dice literal =>
          simp only [List.cons_append, operandsBefore, ih, List.countP_cons, isOperand, if_true]
          congr 2
          omega
      | operator op =>
          simp only [List.cons_append, operandsBefore, ih, List.countP_cons, isOperand,
            Bool.false_eq_true, if_false, Nat.add_zero]
      | leftParen | rightParen =>
          simp only [List.cons_append, operandsBefore, ih, List.countP_cons, isOperand,
            Bool.false_eq_true, if_false, Nat.add_zero]

theorem length_operandsBefore (seen : Nat) (tokens : List Token) :
    (operandsBefore seen tokens).length = (tokens.filterMap operator?).length := by
  induction tokens generalizing seen with
  | nil => rfl
  | cons token tokens ih =>
      cases token with
      | number value | dice literal => exact ih (seen + 1)
      | operator op => exact congrArg (· + 1) (ih seen)
      | leftParen | rightParen => exact ih seen

/-- The entry of an operator says how many operands stand in front of it. -/
theorem getElem?_operandsBefore (seen : Nat) (before after : List Token) (op : Operator) :
    (operandsBefore seen (before ++ .operator op :: after))[(before.filterMap operator?).length]? =
      some (seen + before.countP isOperand) := by
  rw [operandsBefore_append, ← length_operandsBefore seen before,
    List.getElem?_append_right (Nat.le_refl _), Nat.sub_self]
  rfl

theorem operandsBefore_filter (seen : Nat) (tokens : List Token) :
    operandsBefore seen (tokens.filter (!·.isParen)) = operandsBefore seen tokens := by
  induction tokens generalizing seen with
  | nil => rfl
  | cons token tokens ih =>
      cases token with
      | number value | dice literal => exact ih (seen + 1)
      | operator op => exact congrArg (seen :: ·) (ih seen)
      | leftParen | rightParen => exact ih seen

/-- At each operator two values wait at least: all operands in front of it, less one for each operator
in front of it. -/
def Supplied (depth : Nat) (tokens : List Token) : Prop :=
  ∀ k n, (operandsBefore depth tokens)[k]? = some n → k + 2 ≤ n

/-- Behind an operator one value less waits, and one operator less is in front. -/
theorem supplied_operator_iff :
    Supplied (depth + 2) (.operator op :: tokens) ↔ Supplied (depth + 1) tokens := by
  unfold Supplied
  rw [operandsBefore, operandsBefore_add (depth + 1) 1]
  constructor
  · intro h k n hk
    have hle := h (k + 1) (n + 1) (by simp [hk])
    omega
  · intro h k n hk
    cases k with
    | zero =>
        obtain rfl : depth + 2 = n := Option.some_inj.mp hk
        omega
    | succ k =>
        rw [List.getElem?_cons_succ, List.getElem?_map] at hk
        obtain ⟨m, hm, rfl⟩ := Option.map_eq_some_iff.mp hk
        exact Nat.succ_le_succ (h k m hm)

/-- Which lists reduce to so many values. -/
theorem waiting?_eq_some_iff {left : Nat} : waiting? depth tokens = some left ↔
    (∀ t ∈ tokens, t.isParen = false) ∧ Supplied depth tokens ∧
      left + (tokens.filterMap operator?).length = depth + tokens.countP isOperand := by
  induction tokens generalizing depth with
  | nil => simpa [waiting?, Supplied, operandsBefore] using eq_comm
  | cons token tokens ih =>
      rw [List.forall_mem_cons, List.countP_cons]
      cases token with
      | number value | dice literal =>
          rw [waiting?, ih]
          simp only [isParen, isOperand, Supplied, operandsBefore, List.filterMap_cons, operator?,
            true_and, if_true, Nat.add_assoc, Nat.add_comm 1]
      | operator op =>
          rw [waiting?]
          by_cases hdepth : depth < 2
          · rw [if_pos hdepth]
            refine iff_of_false (by simp) ?_
            rintro ⟨-, hsupplied, -⟩
            have hle := hsupplied 0 depth rfl
            omega
          · obtain ⟨rest, rfl⟩ := Nat.exists_eq_add_of_le' (Nat.le_of_not_lt hdepth)
            rw [if_neg hdepth, supplied_operator_iff, ih]
            simp only [isParen, isOperand, List.filterMap_cons, operator?, true_and,
              List.length_cons, Bool.false_eq_true, if_false]
            refine and_congr_right fun _ => and_congr_right fun _ => ?_
            omega
      | leftParen | rightParen => simp [waiting?, isParen]

end Token

namespace PostOrder

open Token

def Pending.operator? : Pending → Option Operator
  | .operator op => some op
  | .paren => none

variable {stack kept below : List Pending} {held closed ops : List Operator}
  {tokens output rest : List Token} {due later : List Nat} {seen : Nat}

/-! ## The stack -/

theorem released_append_kept (incoming : Operator) (stack : List Pending) :
    (release incoming stack).1.map .operator ++ (release incoming stack).2 = stack := by
  induction stack with
  | nil => rfl
  | cons top stack ih =>
      cases top with
      | paren => rfl
      | operator top =>
          rw [release]
          split
          · rfl
          · exact congrArg (Pending.operator top :: ·) ih

theorem eq_append_of_close? (h : close? stack = some (closed, below)) :
    stack = closed.map .operator ++ .paren :: below := by
  induction stack generalizing closed with
  | nil => cases h
  | cons top stack ih =>
      cases top with
      | paren =>
          cases h
          rfl
      | operator top =>
          obtain ⟨⟨inner, rest⟩, hinner, heq⟩ := Option.map_eq_some_iff.mp h
          cases heq
          exact congrArg (Pending.operator top :: ·) (ih hinner)

theorem count_paren_operators (held : List Operator) (stack : List Pending) :
    (held.map Pending.operator ++ stack).count .paren = stack.count .paren := by
  induction held with
  | nil => rfl
  | cons op held ih => simpa using ih

theorem filterMap_operators (held : List Operator) (stack : List Pending) :
    (held.map Pending.operator ++ stack).filterMap Pending.operator? =
      held ++ stack.filterMap Pending.operator? := by
  induction held with
  | nil => rfl
  | cons op held ih => exact congrArg (op :: ·) ih

theorem isSome_flush?_iff : (flush? stack).isSome = true ↔ stack.count .paren = 0 := by
  induction stack with
  | nil => exact iff_of_true rfl rfl
  | cons top stack ih =>
      cases top with
      | paren => simp [flush?]
      | operator top => simpa [flush?] using ih

theorem close?_eq_none_iff : close? stack = none ↔ stack.count .paren = 0 := by
  induction stack with
  | nil => exact iff_of_true rfl rfl
  | cons top stack ih =>
      cases top with
      | paren => simp [close?]
      | operator top => simpa [close?] using ih

/-! ## Which lists are accepted -/

/-- The parentheses on the stack are those that are open. -/
theorem isSome_convert?_iff :
    (convert? stack tokens).isSome = true ↔ Balanced (stack.count .paren) tokens := by
  induction tokens generalizing stack with
  | nil =>
      rw [balanced_nil_iff, convert?, Option.isSome_map]
      exact isSome_flush?_iff
  | cons token tokens ih =>
      rw [balanced_cons_iff]
      cases token with
      | number value | dice literal =>
          rw [convert?, Option.isSome_map, ih]
          simp
      | operator op =>
          have hkept := count_paren_operators (release op stack).1 (release op stack).2
          rw [released_append_kept] at hkept
          simp only [convert?, Option.isSome_map, ih]
          simp [hkept]
      | leftParen =>
          rw [convert?, ih]
          simp
      | rightParen =>
          rw [convert?]
          cases hclose : close? stack with
          | none => simp [close?_eq_none_iff.mp hclose]
          | some pair =>
              obtain ⟨closed, below⟩ := pair
              have hbelow := count_paren_operators closed (.paren :: below)
              rw [← eq_append_of_close? hclose] at hbelow
              simp only [Option.isSome_map, ih]
              simp [hbelow]

/-! ## What is put out -/

/-- `Moves stack tokens output`: what can be put out if an incoming operator releases any number of
the operators on top of the stack, whatever they are. -/
inductive Moves : List Pending → List Token → List Token → Prop
  | flush (held : List Operator) : Moves (held.map .operator) [] (held.map .operator)
  | operand {stack : List Pending} {token : Token} {tokens output : List Token}
      (hoperand : token.isOperand = true) (hrest : Moves stack tokens output) :
      Moves stack (token :: tokens) (token :: output)
  | operator {kept : List Pending} {op : Operator} {tokens output : List Token}
      (held : List Operator) (hrest : Moves (.operator op :: kept) tokens output) :
      Moves (held.map .operator ++ kept) (.operator op :: tokens) (held.map .operator ++ output)
  | leftParen {stack : List Pending} {tokens output : List Token}
      (hrest : Moves (.paren :: stack) tokens output) : Moves stack (.leftParen :: tokens) output
  | rightParen {below : List Pending} {tokens output : List Token} (held : List Operator)
      (hrest : Moves below tokens output) :
      Moves (held.map .operator ++ .paren :: below) (.rightParen :: tokens)
        (held.map .operator ++ output)

theorem moves_of_convert? (h : convert? stack tokens = some output) :
    Moves stack tokens output := by
  induction tokens generalizing stack output with
  | nil =>
      obtain ⟨ops, hflush, rfl⟩ := Option.map_eq_some_iff.mp h
      rw [eq_operators_of_flush? hflush]
      exact .flush ops
  | cons token tokens ih =>
      cases token with
      | number value | dice literal =>
          obtain ⟨rest, hrest, rfl⟩ := Option.map_eq_some_iff.mp h
          exact .operand rfl (ih hrest)
      | operator op =>
          obtain ⟨rest, hrest, rfl⟩ := Option.map_eq_some_iff.mp h
          have hmoves := Moves.operator (release op stack).1 (ih hrest)
          rwa [released_append_kept] at hmoves
      | leftParen => exact .leftParen (ih h)
      | rightParen =>
          simp only [convert?] at h
          split at h
          next => cases h
          next closed below hclose =>
            obtain ⟨rest, hrest, rfl⟩ := Option.map_eq_some_iff.mp h
            rw [eq_append_of_close? hclose]
            exact .rightParen closed (ih hrest)

theorem filterMap_operator?_operators (held : List Operator) :
    (held.map Token.operator).filterMap operator? = held := by
  simp [List.filterMap_map, Function.comp_def, operator?]

theorem operator?_of_isOperand {token : Token} (h : token.isOperand = true) :
    token.operator? = none := by
  cases token with
  | number value | dice literal => rfl
  | operator op => cases h
  | leftParen | rightParen => rfl

namespace Moves

theorem not_isParen (h : Moves stack tokens output) : ∀ t ∈ output, t.isParen = false := by
  have hheld : ∀ held : List Operator, ∀ t ∈ held.map Token.operator, t.isParen = false := by
    intro held
    exact List.forall_mem_map.mpr fun op _ => rfl
  induction h with
  | flush held => exact hheld held
  | @operand _ token _ _ hoperand _ ih =>
      refine List.forall_mem_cons.mpr ⟨?_, ih⟩
      cases token with
      | number value | dice literal | operator op => rfl
      | leftParen | rightParen => cases hoperand
  | operator held _ ih => exact List.forall_mem_append.mpr ⟨hheld held, ih⟩
  | leftParen _ ih => exact ih
  | rightParen held _ ih => exact List.forall_mem_append.mpr ⟨hheld held, ih⟩

/-- The operators that are put out are those that waited and those that came in. -/
theorem operators_perm (h : Moves stack tokens output) :
    (output.filterMap operator?).Perm
      (stack.filterMap Pending.operator? ++ tokens.filterMap operator?) := by
  induction h with
  | flush held =>
      have hstack := filterMap_operators held []
      rw [List.append_nil] at hstack
      rw [filterMap_operator?_operators, hstack]
      simp
  | operand hoperand _ ih =>
      rw [List.filterMap_cons_none (operator?_of_isOperand hoperand),
        List.filterMap_cons_none (operator?_of_isOperand hoperand)]
      exact ih
  | @operator kept op tokens output held _ ih =>
      rw [List.filterMap_append, filterMap_operator?_operators, filterMap_operators,
        List.append_assoc]
      exact (ih.trans List.perm_middle.symm).append_left held
  | leftParen _ ih => exact ih
  | rightParen held _ ih =>
      rw [List.filterMap_append, filterMap_operator?_operators, filterMap_operators,
        List.append_assoc]
      exact ih.append_left held

/-- Operators that waited while so many operands passed are put out behind them. -/
theorem forall₂_released {n : Nat} {rest due : List Nat} {held : List Operator}
    (hlength : due.length = held.length + n) (hdue : ∀ m ∈ due, m ≤ seen)
    (hlater : ∀ later : List Nat, later.length = n → (∀ m ∈ later, m ≤ seen) →
      List.Forall₂ (· ≤ ·) (later ++ rest) (operandsBefore seen output)) :
    List.Forall₂ (· ≤ ·) (due ++ rest) (operandsBefore seen (held.map .operator ++ output)) := by
  induction held generalizing due with
  | nil => exact hlater due (by simpa using hlength) hdue
  | cons op held ih =>
      cases due with
      | nil =>
          rw [List.length_cons, List.length_nil] at hlength
          omega
      | cons m due =>
          obtain ⟨hm, hdue⟩ := List.forall_mem_cons.mp hdue
          refine .cons hm (ih ?_ hdue)
          rw [List.length_cons, List.length_cons] at hlength
          omega

/-- `due` are the numbers of operands in front of the operators on the stack, none of them more than
have been seen. -/
theorem forall₂_operandsBefore (h : Moves stack tokens output)
    (hlength : due.length = (stack.filterMap Pending.operator?).length)
    (hdue : ∀ m ∈ due, m ≤ seen) :
    List.Forall₂ (· ≤ ·) (due ++ operandsBefore seen tokens) (operandsBefore seen output) := by
  induction h generalizing seen due with
  | flush held =>
      have hstack := filterMap_operators held []
      rw [List.append_nil] at hstack
      rw [hstack, List.length_append] at hlength
      rw [← List.append_nil (held.map Token.operator)]
      refine forall₂_released hlength hdue ?_
      intro later hlater _
      rw [List.length_eq_zero_iff.mp hlater]
      exact .nil
  | @operand _ token _ _ hoperand _ ih =>
      have hmore : ∀ m ∈ due, m ≤ seen + 1 := fun m hm => Nat.le_succ_of_le (hdue m hm)
      cases token with
      | number value | dice literal => exact ih hlength hmore
      | operator op | leftParen | rightParen => cases hoperand
  | @operator kept op tokens output held _ ih =>
      rw [filterMap_operators, List.length_append] at hlength
      refine forall₂_released hlength hdue ?_
      intro later hlater hle
      -- the operator that comes in waits as the last one
      have hcomes := @ih (later ++ [seen]) seen (by simpa [Pending.operator?] using hlater)
        (List.forall_mem_append.mpr ⟨hle, List.forall_mem_singleton.mpr (Nat.le_refl seen)⟩)
      rwa [List.append_assoc] at hcomes
  | leftParen _ ih => exact ih hlength hdue
  | rightParen held _ ih =>
      rw [filterMap_operators, List.length_append] at hlength
      refine forall₂_released hlength hdue ?_
      intro later hlater hle
      exact ih hlater hle

end Moves

theorem exists_ofInfix_iff : (∃ output, ofInfix tokens = .ok output) ↔ Balanced 0 tokens := by
  simp only [ofInfix_eq_ok_iff, ← Option.isSome_iff_exists, isSome_convert?_iff]
  rfl

/-- What the pass does to the numbers of operands in front of the operators. -/
theorem forall₂_operandsBefore (h : convert? [] tokens = some output) :
    List.Forall₂ (· ≤ ·) (operandsBefore 0 tokens) (operandsBefore 0 output) := by
  -- nothing is due in front of the first token
  have hdue : ∀ m ∈ ([] : List Nat), m ≤ 0 := by simp
  exact (moves_of_convert? h).forall₂_operandsBefore rfl hdue

theorem exists_le_of_forall₂ {numbers others : List Nat} (h : List.Forall₂ (· ≤ ·) numbers others)
    {k n : Nat} (hn : others[k]? = some n) : ∃ m, numbers[k]? = some m ∧ m ≤ n := by
  induction h generalizing k with
  | nil => cases hn
  | @cons m _ _ _ hle _ ih =>
      cases k with
      | zero =>
          obtain rfl := Option.some_inj.mp hn
          exact ⟨m, rfl, hle⟩
      | succ k => exact ih hn

/-- The operator of any number is put out behind no fewer operands than it comes in. -/
theorem operands_le_of_convert? (h : convert? [] tokens = some output)
    {before after before' after' : List Token} {op op' : Operator}
    (htokens : tokens = before ++ .operator op :: after)
    (houtput : output = before' ++ .operator op' :: after')
    (hcount : (before.filterMap operator?).length = (before'.filterMap operator?).length) :
    before.countP isOperand ≤ before'.countP isOperand := by
  have hin := getElem?_operandsBefore 0 before after op
  have hout := getElem?_operandsBefore 0 before' after' op'
  rw [← htokens, Nat.zero_add] at hin
  rw [← houtput, Nat.zero_add, ← hcount] at hout
  obtain ⟨m, hm, hle⟩ := exists_le_of_forall₂ (forall₂_operandsBefore h) hout
  rw [hin] at hm
  obtain rfl := Option.some_inj.mp hm
  exact hle

/-- What reduces to a single value without its parentheses is put out as a list that does. -/
theorem reduces_of_convert? (h : convert? [] tokens = some output)
    (hreduces : Reduces (tokens.filter (!·.isParen))) : Reduces output := by
  have hlags := forall₂_operandsBefore h
  obtain ⟨-, hsupplied, hcount⟩ := waiting?_eq_some_iff.mp hreduces
  refine waiting?_eq_some_iff.mpr ⟨(moves_of_convert? h).not_isParen, ?_, ?_⟩
  · intro k n hn
    obtain ⟨m, hm, hle⟩ := exists_le_of_forall₂ hlags hn
    rw [← operandsBefore_filter] at hm
    exact Nat.le_trans (hsupplied k m hm) hle
  · have hoperands : output.countP isOperand = (tokens.filter (!·.isParen)).countP isOperand := by
      rw [List.countP_filter, List.countP_eq_length_filter, operands_of_convert? h,
        ← List.countP_eq_length_filter]
      apply List.countP_congr
      intro t _
      cases t <;> simp [isOperand, isParen]
    have hoperators : (output.filterMap operator?).length =
        ((tokens.filter (!·.isParen)).filterMap operator?).length := by
      rw [← length_operandsBefore 0, ← length_operandsBefore 0, operandsBefore_filter,
        hlags.length_eq]
    rw [hoperands, hoperators]
    exact hcount

/-- **Any list of tokens.** The pass to post-order accepts a list exactly if its parentheses are
balanced, and names them as the fault of any other. It puts out no parentheses, the operands in their
order and the operators in some order, where the operator of any number has at least as many operands
in front of it as the one of this number that came in. So a balanced list that reduces to a single
value without its parentheses is put out as a list that passes the check of every table that admits
its tokens. -/
theorem ofInfix_of_balanced (tokens : List Token) :
    (Balanced 0 tokens ↔ ∃ output, ofInfix tokens = .ok output) ∧
    (¬ Balanced 0 tokens → ofInfix tokens = .error .mismatchedParens) ∧
    (∀ output, ofInfix tokens = .ok output →
      (.leftParen ∉ output ∧ .rightParen ∉ output) ∧
      output.filter isOperand = tokens.filter isOperand ∧
      (output.filterMap operator?).Perm (tokens.filterMap operator?) ∧
      ∀ before op after before' op' after', tokens = before ++ .operator op :: after →
        output = before' ++ .operator op' :: after' →
        (before.filterMap operator?).length = (before'.filterMap operator?).length →
        before.countP isOperand ≤ before'.countP isOperand) ∧
    (Balanced 0 tokens → Reduces (tokens.filter (!·.isParen)) →
      ∃ output, ofInfix tokens = .ok output ∧ Reduces output ∧
        ∀ table : Table, table.check output = .ok () ↔ ∀ t ∈ output, table.Admits t) := by
  refine ⟨exists_ofInfix_iff.symm, ?_, ?_, ?_⟩
  · intro hnot
    cases hresult : ofInfix tokens with
    | ok output => exact absurd (exists_ofInfix_iff.mp ⟨output, hresult⟩) hnot
    | error e => rw [ofInfix_eq_error hresult]
  · intro output houtput
    have hconvert := ofInfix_eq_ok_iff.mp houtput
    have hmoves := moves_of_convert? hconvert
    refine ⟨⟨?_, ?_⟩, operands_of_ofInfix houtput, hmoves.operators_perm, ?_⟩
    · exact fun hmem => nomatch hmoves.not_isParen _ hmem
    · exact fun hmem => nomatch hmoves.not_isParen _ hmem
    · intro before op after before' op' after' htokens hout hcount
      exact operands_le_of_convert? hconvert htokens hout hcount
  · intro hbalanced hreduces
    obtain ⟨output, houtput⟩ := exists_ofInfix_iff.mpr hbalanced
    have hreduced := reduces_of_convert? (ofInfix_eq_ok_iff.mp houtput) hreduces
    refine ⟨output, houtput, hreduced, ?_⟩
    intro table
    rw [Table.check_eq_ok_iff, and_iff_right hreduced]

example : ofInfix [.number 1, .leftParen, .operator .add, .number 2, .rightParen] =
    .ok [.number 1, .number 2, .operator .add] := rfl

end PostOrder

end DiceNotation
