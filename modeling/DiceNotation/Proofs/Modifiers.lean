import DiceNotation.Proofs.ExactArithmetic
import DiceNotation.Proofs.Layout

/-!
# What operands add to a roll

From the top of an expression a path of turns leads to each operand, and at each turn there is an
operator above it. An operand counts negatively if its path turns to the right side of a difference
an odd number of times. With these signs the modifier of a roll is the sum of the constants below sums
and differences alone, and the total of an expression without products and quotients is its modifier
and the totals of its groups. What a group comes to can be read off the whole roll: its draws are a
block of all draws, and the dropped positions within the block are those of the group.
-/

namespace DiceNotation

/-! ## Paths to the operands -/

/-- Sums and differences are additive, products and quotients are not. -/
def Operator.isAdditive : Operator → Bool
  | add | sub => true
  | mul | div => false

/-- Sums and differences of sums can be taken part by part. -/
theorem Operator.exact_add {op : Operator} (hop : op.isAdditive) (a b c d : Int) :
    op.exact (a + b) (c + d) = op.exactModifier a c + op.exact b d := by
  cases op with
  | add => exact add_add_add_comm a b c d
  | sub => exact add_sub_add_comm a b c d
  | mul => cases hop
  | div => cases hop

/-- The constant that a token is, if it is one. -/
def Token.constant? : Token → Option Int
  | number value => some value.toInt
  | _ => none

namespace Expr

/-- A way down from an operator to one of its sides. -/
structure Turn where
  op : Operator
  right : Bool
deriving DecidableEq

/-- The right side of a difference is taken away. -/
def Turn.negates (turn : Turn) : Bool :=
  turn.op = .sub ∧ turn.right

def Turn.sign (turn : Turn) : Int :=
  if turn.negates then -1 else 1

/-- The turns from the top of an expression down to an operand. -/
abbrev Path := List Turn

/-- A change of sign for each right side of a difference in which the operand lies. -/
def Path.sign (path : Path) : Int :=
  (-1) ^ path.countP Turn.negates

/-- No operator above the operand is a product or a quotient. -/
def Path.isAdditive (path : Path) : Bool :=
  path.all (·.op.isAdditive)

theorem Path.sign_cons (turn : Turn) (path : Path) :
    Path.sign (turn :: path) = turn.sign * path.sign := by
  unfold Path.sign Turn.sign
  by_cases h : turn.negates = true
  · rw [List.countP_cons_of_pos h, if_pos h, pow_succ']
  · rw [List.countP_cons_of_neg h, if_neg h, one_mul]

variable {α : Type}

/-- The same operands with a turn more above them. -/
def Turn.above (turn : Turn) (terms : List (Path × α)) : List (Path × α) :=
  terms.map fun term => (turn :: term.1, term.2)

/-- The operands from left to right, each with its path. -/
def operands : Expr → List (Path × Token)
  | number value => [([], .number value)]
  | dice literal => [([], .dice literal)]
  | binary left op right => Turn.above ⟨op, false⟩ left.operands ++ Turn.above ⟨op, true⟩ right.operands

/-- The operands of one kind, each with its path. -/
def select (f : Token → Option α) (e : Expr) : List (Path × α) :=
  e.operands.filterMap fun operand => (f operand.2).map fun a => (operand.1, a)

def constants (e : Expr) : List (Path × Int) :=
  e.select Token.constant?

def groups (e : Expr) : List (Path × Literal) :=
  e.select Token.literal?

/-- All operators are sums and differences. -/
def isAdditive : Expr → Bool
  | number _ | dice _ => true
  | binary left op right => op.isAdditive && left.isAdditive && right.isAdditive

/-- The sum of the terms, each with the sign of its path. -/
def signedSum (terms : List (Path × Int)) : Int :=
  (terms.map fun term => term.1.sign * term.2).sum

theorem operands_map_snd (e : Expr) :
    e.operands.map Prod.snd = e.postOrder.filter Token.isOperand := by
  induction e with
  | number value => rfl
  | dice literal => rfl
  | binary left op right ihl ihr =>
      simp [operands, Turn.above, postOrder, Token.isOperand, ← ihl, ← ihr, Function.comp_def]

theorem select_binary (f : Token → Option α) (left right : Expr) (op : Operator) :
    (binary left op right).select f =
      Turn.above ⟨op, false⟩ (left.select f) ++ Turn.above ⟨op, true⟩ (right.select f) := by
  simp [select, operands, Turn.above, List.filterMap_map, List.map_filterMap, Function.comp_def,
    Option.map_map]

theorem groups_map_snd (e : Expr) :
    e.groups.map Prod.snd = e.postOrder.filterMap Token.literal? := by
  rw [← PostOrder.filterMap_literal?_filter, ← operands_map_snd]
  simp [groups, select, List.map_filterMap, List.filterMap_map, Function.comp_def, Option.map_map]

theorem signedSum_append (first second : List (Path × Int)) :
    signedSum (first ++ second) = signedSum first + signedSum second := by
  simp [signedSum]

theorem signedSum_above (turn : Turn) (terms : List (Path × Int)) :
    signedSum (turn.above terms) = turn.sign * signedSum terms := by
  simp [signedSum, Turn.above, Path.sign_cons, Function.comp_def, mul_assoc, List.sum_map_mul_left]

theorem filter_above (turn : Turn) (terms : List (Path × α)) :
    (turn.above terms).filter (·.1.isAdditive) =
      if turn.op.isAdditive then turn.above (terms.filter (·.1.isAdditive)) else [] := by
  split <;> rename_i h <;>
    simp [Turn.above, List.filter_map, Function.comp_def, Path.isAdditive, h]

/-! ## Signed sums -/

variable {op : Operator}

theorem signedSum_singleton (n : Int) : signedSum [([], n)] = n := by
  simp [signedSum, Path.sign]

/-- A sum or a difference does to the sums of its sides what it does to two numbers. -/
theorem signedSum_sides (hop : op.isAdditive) (first second : List (Path × Int)) :
    signedSum (Turn.above ⟨op, false⟩ first ++ Turn.above ⟨op, true⟩ second) =
      op.exact (signedSum first) (signedSum second) := by
  rw [signedSum_append, signedSum_above, signedSum_above]
  cases op with
  | add => simp [Turn.sign, Turn.negates, Operator.exact]
  | sub => simp [Turn.sign, Turn.negates, Operator.exact, sub_eq_add_neg]
  | mul => cases hop
  | div => cases hop

/-- The constants that count toward the modifier. -/
def freeConstants (e : Expr) : List (Path × Int) :=
  e.constants.filter (·.1.isAdditive)

theorem signedSum_freeConstants_binary (left right : Expr) (op : Operator) :
    signedSum (binary left op right).freeConstants =
      op.exactModifier (signedSum left.freeConstants) (signedSum right.freeConstants) := by
  rw [freeConstants, constants, select_binary, List.filter_append, filter_above, filter_above]
  cases op with
  | add => exact signedSum_sides rfl _ _
  | sub => exact signedSum_sides rfl _ _
  | mul => rfl
  | div => rfl

theorem groups_binary (left right : Expr) (op : Operator) :
    (binary left op right).groups =
      Turn.above ⟨op, false⟩ left.groups ++ Turn.above ⟨op, true⟩ right.groups :=
  select_binary _ left right op

end Expr

theorem Throw.modifier_roll (t : Throw) : t.roll.modifier = 0 := by
  obtain ⟨rule, literal, faces, hfaces⟩ := t
  cases rule <;> rfl

/-- The totals of the groups, each with the path to its group. -/
def Expr.groupTotals (e : Expr) (throws : List Throw) : List (Path × Int) :=
  List.zipWith (fun group t => (group.1, t.roll.total.toInt)) e.groups throws

theorem Expr.groupTotals_binary {left right : Expr} {op : Operator} {first second : List Throw}
    (hfirst : first.map Throw.literal = left.groups.map Prod.snd) :
    (binary left op right).groupTotals (first ++ second) =
      Turn.above ⟨op, false⟩ (left.groupTotals first) ++
        Turn.above ⟨op, true⟩ (right.groupTotals second) := by
  have hlength : left.groups.length = first.length := by
    simpa using (congrArg List.length hfirst).symm
  simp only [groupTotals, groups_binary, Turn.above]
  rw [List.zipWith_append (by simpa using hlength), List.zipWith_map_left, List.zipWith_map_left,
    List.map_zipWith, List.map_zipWith]

namespace Expr.Settles

variable {table : Table} {e : Expr} {throws : List Throw} {roll : Roll}

theorem literals_eq (h : Expr.Settles table e throws roll) :
    throws.map Throw.literal = e.groups.map Prod.snd := by
  rw [groups_map_snd, h.accounts.literals]

theorem modifier_eq (h : Expr.Settles table e throws roll) :
    roll.modifier.toInt = signedSum e.freeConstants := by
  induction h with
  | number value => exact (signedSum_singleton value.toInt).symm
  | dice t _ _ =>
      rw [t.modifier_roll]
      rfl
  | binary _ _ hcombine ihl ihr =>
      rw [(Roll.toInt_of_combine hcombine).2, ihl, ihr, signedSum_freeConstants_binary]

theorem total_eq (h : Expr.Settles table e throws roll) (hadditive : e.isAdditive) :
    roll.total.toInt = roll.modifier.toInt + signedSum (e.groupTotals throws) := by
  induction h with
  | number value => exact (add_zero value.toInt).symm
  | dice t _ _ =>
      have hone : signedSum ((Expr.dice t.literal).groupTotals [t]) = t.roll.total.toInt :=
        signedSum_singleton _
      rw [hone, t.modifier_roll, Int64.toInt_zero, zero_add]
  | @binary left right first second l r roll op hl hr hcombine ihl ihr =>
      simp only [isAdditive, Bool.and_eq_true] at hadditive
      obtain ⟨⟨hop, hleft⟩, hright⟩ := hadditive
      obtain ⟨htotal, hmodifier⟩ := Roll.toInt_of_combine hcombine
      rw [htotal, hmodifier, ihl hleft, ihr hright, groupTotals_binary hl.literals_eq,
        signedSum_sides hop, Operator.exact_add hop]

end Expr.Settles

/-! ## Groups in a whole roll -/

/-- What a group adds to the total, by what the roll shows of its block: the dice that are not dropped
of standard and fudge dice, all dice of pairs, and nothing for symbols. -/
def Roll.points (roll : Roll) (p : Nat × Throw) : Int :=
  let block := Finset.Ico p.1 (p.1 + p.2.shown.length)
  match p.2.rule with
  | .standard | .fudge => sumAt roll.draws {i ∈ block | i ∉ roll.dropped}
  | .duality => sumAt roll.draws block
  | .faction => 0

/-- The sum over some positions of a block of values, counted from the start of the block. -/
theorem sumAt_block {draws values : List Int64} {start : Nat}
    (hdraws : ∀ i, i < values.length → draws[start + i]? = values[i]?) (chosen : Nat → Prop)
    [DecidablePred chosen] :
    sumAt draws {i ∈ Finset.Ico start (start + values.length) | chosen i} =
      sumAt values {i ∈ Finset.range values.length | chosen (start + i)} := by
  rw [sumAt, sumAt, Finset.sum_filter, Finset.sum_filter, Finset.sum_Ico_eq_sum_range,
    Nat.add_sub_cancel_left]
  refine Finset.sum_congr rfl fun i hi => ?_
  rw [hdraws i (Finset.mem_range.mp hi)]

namespace Assembled

open Throw

variable {throws : List Throw} {roll : Roll} {p : Nat × Throw}

theorem total_roll (h : Assembled throws roll) (hp : p ∈ placed 0 throws) :
    p.2.roll.total = Int64.ofInt (roll.points p) := by
  have hdraws : ∀ i, i < p.2.shown.length → roll.draws[p.1 + i]? = p.2.shown[i]? :=
    fun i hi => h.getElem?_draws hp hi
  have hkept : sumAt roll.draws
      {i ∈ Finset.Ico p.1 (p.1 + p.2.shown.length) | i ∉ roll.dropped} =
        exactTotal p.2.shown p.2.roll.dropped := by
    rw [sumAt_block hdraws, exactTotal, keptPositions]
    congr 1
    refine Finset.filter_congr fun i hi => ?_
    rw [h.mem_dropped_iff hp (Finset.mem_range.mp hi)]
  have hduality : sumAt roll.draws (Finset.Ico p.1 (p.1 + p.2.shown.length)) =
      exactTotal p.2.shown [] := by
    have hall := sumAt_block hdraws fun _ => True
    simpa [exactTotal, keptPositions] using hall
  obtain ⟨start, rule, literal, faces, hfaces⟩ := p
  cases rule with
  | standard | fudge => exact (keptTotal_eq_ofInt _ _).trans (congrArg Int64.ofInt hkept.symm)
  | duality =>
      have htotal : faces.sum = Int64.ofInt (exactTotal faces []) := by
        rw [← keptTotal_nil, keptTotal_eq_ofInt]
      exact htotal.trans (congrArg Int64.ofInt hduality.symm)
  | faction => rfl

end Assembled

open Throw

/-- **Modifier and total.** The modifier of a roll is the sum of the constants with no product or
quotient above them, each with the sign of its path. There is one throw for each group, which together
are all that was drawn; each shows a block of the draws, and its own total is what the roll shows of
that block. If all operators are sums and differences, the total is the modifier and the totals of the
groups with the signs of their paths. -/
theorem Table.signed_sums_of_evaluate {table : Table} {e : Expr} {text : String} {σ : Type}
    {source : Source σ} {s s' : σ} {roll : Roll}
    (h : table.evaluate source ⟨e.postOrder, text⟩ s = (.ok roll, s')) (record : List Draw) :
    roll.modifier.toInt = Expr.signedSum e.freeConstants ∧
    ∃ throws : List Throw,
      throws.map Throw.literal = e.groups.map Prod.snd ∧
      (∀ t ∈ throws, table.rulebook.ruleFor t.literal = .ok t.rule ∧ t.Complete table.limits) ∧
      table.evaluate source.recorded ⟨e.postOrder, text⟩ (s, record) =
        (.ok roll, s', (throws.flatMap Throw.calls).reverse ++ record) ∧
      roll.draws = throws.flatMap shown ∧
      (∀ p ∈ placed 0 throws, p.2.roll.total = Int64.ofInt (roll.points p)) ∧
      (e.isAdditive → roll.total.toInt =
        roll.modifier.toInt + Expr.signedSum (e.groupTotals throws)) := by
  obtain ⟨f, throws, raw, htokens, hsettles, hroll, hrun⟩ := exists_settles_of_evaluate h record
  obtain rfl := Expr.postOrder_injective htokens
  have hassembled : Assembled throws roll := by
    rw [hroll]
    exact (Assembled.of_settles hsettles).relabel text
  refine ⟨?_, throws, hsettles.literals_eq, ?_, hrun, hassembled.draws_eq, ?_, ?_⟩
  · rw [hroll]
    exact hsettles.modifier_eq
  · exact fun t ht => ⟨hsettles.accounts.rules t ht, hsettles.complete t ht⟩
  · exact fun p hp => hassembled.total_roll hp
  · intro hadditive
    rw [hroll]
    exact hsettles.total_eq hadditive

/-- `10 - (2d6kl1 - (3 - dh))` where the source answers 5, 2 and the pair 4, 6: the constant in the
second parenthesis is added, and the pair is taken away. -/
theorem Table.signed_sums_of_evaluate_nested :
    let low : Literal := ⟨"2d6kl1", ⟨⟨2, by decide, by decide⟩, ⟨6, by decide, by decide⟩, .standard,
      false, some ⟨.keep, .low, .one⟩⟩⟩
    let pair : Literal := ⟨"dh", .plain .one ⟨12, by decide, by decide⟩ .duality⟩
    let e : Expr := .binary (.number 10) .sub
      (.binary (.dice low) .sub (.binary (.number 3) .sub (.dice pair)))
    let roll : Roll := ⟨1, [5, 2, 4, 6], [0], 13, "", [⟨2, .duality [⟨4, 6, .secondary⟩]⟩]⟩
    Expr.signedSum e.freeConstants = 13 ∧
    ∃ throws : List Throw, throws.map Throw.literal = [low, pair] ∧
      (∀ p ∈ placed 0 throws, p.2.roll.total = Int64.ofInt (roll.points p)) ∧
      1 = 13 + Expr.signedSum (e.groupTotals throws) := by
  intro low pair e roll
  have hrun : (Table.evaluate {} (Script.source []) ⟨e.postOrder, ""⟩ ⟨[5, 2, 4, 6], .error⟩) =
      (.ok roll, ⟨[], .error⟩) := by cbv
  obtain ⟨hmodifier, throws, hliterals, -, -, -, hpoints, htotal⟩ :=
    signed_sums_of_evaluate hrun []
  exact ⟨hmodifier.symm, throws, hliterals, hpoints, htotal rfl⟩

example : (Expr.binary (.binary (.number 7) .sub (.number 4)) .add
    (.binary (.number 2) .mul (.binary (.number 5) .sub (.number 1)))).freeConstants =
      [([⟨.add, false⟩, ⟨.sub, false⟩], 7), ([⟨.add, false⟩, ⟨.sub, true⟩], 4)] := by rfl

end DiceNotation
