import DiceNotation.Proofs.Evaluation
import DiceNotation.Proofs.KeptTotal
import DiceNotation.Proofs.Combine

/-!
# Exact arithmetic

An operator on rolls computes in 64-bit numbers, and here it is held to the integers. `RollTree` is an
expression whose operands have been rolled; its totals and modifiers in the integers say at each
operator whether there is a 64-bit result. As long as there is one, the next operator up works on the
exact numbers, so the first operator without one, in the order of evaluation, is where the machine
stops as well.
-/

namespace DiceNotation

/-! ## One operator -/

theorem fitsInt64_toInt (value : Int64) : FitsInt64 value.toInt :=
  ⟨value.minValue_le_toInt, value.toInt_le⟩

theorem exactInt64?_eq_some_iff {n : Int} {value : Int64} :
    exactInt64? n = some value ↔ value.toInt = n := by
  unfold exactInt64?
  constructor
  · intro h
    split at h
    · rename_i hfits
      cases h
      exact toInt_ofInt_of_fits hfits
    · cases h
  · rintro rfl
    have hfits : Int64.minValue.toInt ≤ value.toInt ∧ value.toInt ≤ Int64.maxValue.toInt :=
      fitsInt64_toInt value
    rw [if_pos hfits, Int64.ofInt_toInt]

theorem exactInt64?_eq_none_iff {n : Int} : exactInt64? n = none ↔ ¬ FitsInt64 n := by
  unfold exactInt64? FitsInt64
  split <;> simp_all

namespace Operator

variable {op : Operator} {left right value : Int64} {e : Error}

/-- The modifier behind an operator in the integers. -/
def exactModifier (op : Operator) (left right : Int) : Int :=
  match op with
  | add | sub => op.exact left right
  | mul | div => 0

theorem checked_eq_ok_iff :
    op.checked left right = .ok value ↔ value.toInt = op.exact left.toInt right.toInt := by
  rw [← exactInt64?_eq_some_iff, checked]
  cases exactInt64? (op.exact left.toInt right.toInt) <;> simp

theorem checked_eq_error_iff :
    op.checked left right = .error e ↔
      ¬ FitsInt64 (op.exact left.toInt right.toInt) ∧ e = .overflow := by
  rw [← exactInt64?_eq_none_iff, checked]
  cases exactInt64? (op.exact left.toInt right.toInt) <;> simp [eq_comm]

theorem toInt_eq_zero_iff : value.toInt = 0 ↔ value = 0 := by
  rw [← Int64.toInt_zero, Int64.toInt_inj]

theorem total_eq_ok_iff :
    op.total left right = .ok value ↔
      ¬ (op = .div ∧ right.toInt = 0) ∧ value.toInt = op.exact left.toInt right.toInt := by
  rw [toInt_eq_zero_iff, ← checked_eq_ok_iff, total]
  by_cases hzero : op = .div ∧ right = 0
  · simp [hzero]
  · simp [hzero]

theorem total_eq_error_iff :
    op.total left right = .error e ↔
      ((op = .div ∧ right.toInt = 0) ∧ e = .zeroDivision) ∨
      (¬ (op = .div ∧ right.toInt = 0) ∧ ¬ FitsInt64 (op.exact left.toInt right.toInt) ∧
        e = .overflow) := by
  rw [toInt_eq_zero_iff, ← checked_eq_error_iff, total]
  by_cases hzero : op = .div ∧ right = 0
  · simp [hzero, eq_comm]
  · simp [hzero]

theorem modifier_eq_ok_iff :
    op.modifier left right = .ok value ↔
      value.toInt = op.exactModifier left.toInt right.toInt := by
  cases op with
  | add => exact checked_eq_ok_iff
  | sub => exact checked_eq_ok_iff
  | mul => simp [modifier, exactModifier, ← Int64.toInt_inj, eq_comm]
  | div => simp [modifier, exactModifier, ← Int64.toInt_inj, eq_comm]

theorem modifier_eq_error_iff :
    op.modifier left right = .error e ↔
      ¬ FitsInt64 (op.exactModifier left.toInt right.toInt) ∧ e = .overflow := by
  have hzero : FitsInt64 0 := by decide
  cases op with
  | add => exact checked_eq_error_iff
  | sub => exact checked_eq_error_iff
  | mul => simp [modifier, exactModifier, hzero]
  | div => simp [modifier, exactModifier, hzero]

end Operator

/-! ## One operator on rolls -/

namespace Roll

variable {left right roll : Roll} {op : Operator} {e : Error}

theorem toInt_of_combine (h : left.combine op right = .ok roll) :
    roll.total.toInt = op.exact left.total.toInt right.total.toInt ∧
      roll.modifier.toInt = op.exactModifier left.modifier.toInt right.modifier.toInt := by
  obtain ⟨total, modifier, htotal, hmodifier, rfl⟩ := combine_eq_ok_iff.mp h
  exact ⟨(Operator.total_eq_ok_iff.mp htotal).2, Operator.modifier_eq_ok_iff.mp hmodifier⟩

theorem exists_combine_iff :
    (∃ roll, left.combine op right = .ok roll) ↔
      ¬ (op = .div ∧ right.total.toInt = 0) ∧
      FitsInt64 (op.exact left.total.toInt right.total.toInt) ∧
      FitsInt64 (op.exactModifier left.modifier.toInt right.modifier.toInt) := by
  constructor
  · rintro ⟨roll, h⟩
    obtain ⟨total, modifier, htotal, hmodifier, -⟩ := combine_eq_ok_iff.mp h
    obtain ⟨hdivisor, htotal⟩ := Operator.total_eq_ok_iff.mp htotal
    rw [← htotal, ← Operator.modifier_eq_ok_iff.mp hmodifier]
    exact ⟨hdivisor, fitsInt64_toInt total, fitsInt64_toInt modifier⟩
  · rintro ⟨hdivisor, htotal, hmodifier⟩
    have hok : op.total left.total right.total = .ok _ :=
      Operator.total_eq_ok_iff.mpr ⟨hdivisor, toInt_ofInt_of_fits htotal⟩
    have hok' : op.modifier left.modifier right.modifier = .ok _ :=
      Operator.modifier_eq_ok_iff.mpr (toInt_ofInt_of_fits hmodifier)
    exact ⟨_, combine_eq_ok_iff.mpr ⟨_, _, hok, hok', rfl⟩⟩

theorem combine_of_zeroDivision (h : op = .div ∧ right.total.toInt = 0) :
    left.combine op right = .error .zeroDivision :=
  combine_eq_error_iff.mpr (.inl (Operator.total_eq_error_iff.mpr (.inl ⟨h, rfl⟩)))

theorem combine_of_overflow (hdivisor : ¬ (op = .div ∧ right.total.toInt = 0))
    (h : ¬ (FitsInt64 (op.exact left.total.toInt right.total.toInt) ∧
      FitsInt64 (op.exactModifier left.modifier.toInt right.modifier.toInt))) :
    left.combine op right = .error .overflow := by
  by_cases htotal : FitsInt64 (op.exact left.total.toInt right.total.toInt)
  · have hok : op.total left.total right.total = .ok _ :=
      Operator.total_eq_ok_iff.mpr ⟨hdivisor, toInt_ofInt_of_fits htotal⟩
    have hmodifier : op.modifier left.modifier right.modifier = .error .overflow :=
      Operator.modifier_eq_error_iff.mpr ⟨fun hfits => h ⟨htotal, hfits⟩, rfl⟩
    exact combine_eq_error_iff.mpr (.inr ⟨_, hok, hmodifier⟩)
  · have herror : op.total left.total right.total = .error .overflow :=
      Operator.total_eq_error_iff.mpr (.inr ⟨hdivisor, htotal, rfl⟩)
    exact combine_eq_error_iff.mpr (.inl herror)

end Roll

/-! ## Trees of rolls -/

/-- An expression whose operands have been rolled. -/
inductive RollTree where
  | operand (roll : Roll)
  | binary (left : RollTree) (op : Operator) (right : RollTree)

namespace RollTree

/-- Applies the operators, those of the left side first. -/
def combine : RollTree → Except Error Roll
  | operand roll => .ok roll
  | binary left op right => do
    let l ← left.combine
    let r ← right.combine
    l.combine op r

/-- The total in the integers. -/
def total : RollTree → Int
  | operand roll => roll.total.toInt
  | binary left op right => op.exact left.total right.total

/-- The modifier in the integers. -/
def modifier : RollTree → Int
  | operand roll => roll.modifier.toInt
  | binary left op right => op.exactModifier left.modifier right.modifier

/-- All nodes in post-order, each as the tree below it. -/
def nodes : RollTree → List RollTree
  | operand roll => [.operand roll]
  | binary left op right => left.nodes ++ right.nodes ++ [.binary left op right]

def DividesByZero : RollTree → Prop
  | operand _ => False
  | binary _ op right => op = .div ∧ right.total = 0

/-- The node has a quotient, and both of its numbers are 64-bit ones. -/
def Representable (t : RollTree) : Prop :=
  ¬ t.DividesByZero ∧ FitsInt64 t.total ∧ FitsInt64 t.modifier

/-- Why a node that is not representable fails. -/
def Fails (t : RollTree) (e : Error) : Prop :=
  (t.DividesByZero ∧ e = .zeroDivision) ∨
  (¬ t.DividesByZero ∧ ¬ (FitsInt64 t.total ∧ FitsInt64 t.modifier) ∧ e = .overflow)

/-- The first of the nodes that is not representable fails with `e`. -/
inductive FirstFailure : List RollTree → Error → Prop
  | here {node : RollTree} {nodes : List RollTree} {e : Error} (h : node.Fails e) :
      FirstFailure (node :: nodes) e
  | later {node : RollTree} {nodes : List RollTree} {e : Error} (hnode : node.Representable)
      (h : FirstFailure nodes e) : FirstFailure (node :: nodes) e

variable {t : RollTree} {nodes others : List RollTree} {e cause : Error}

theorem Fails.not_representable (h : t.Fails e) : ¬ t.Representable := by
  rintro ⟨hdivisor, hfits⟩
  rcases h with ⟨hzero, -⟩ | ⟨-, hover, -⟩
  · exact hdivisor hzero
  · exact hover hfits

theorem Fails.unique (h : t.Fails e) (h' : t.Fails cause) : e = cause := by
  rcases h with ⟨hzero, rfl⟩ | ⟨hdivisor, -, rfl⟩
  · rcases h' with ⟨-, rfl⟩ | ⟨hdivisor, -⟩
    · rfl
    · exact absurd hzero hdivisor
  · rcases h' with ⟨hzero, -⟩ | ⟨-, -, rfl⟩
    · exact absurd hzero hdivisor
    · rfl

namespace FirstFailure

theorem append_right (h : FirstFailure nodes e) (others : List RollTree) :
    FirstFailure (nodes ++ others) e := by
  induction h with
  | here h => exact .here h
  | later hnode _ ih => exact .later hnode ih

theorem append_left (hall : ∀ node ∈ nodes, node.Representable) (h : FirstFailure others e) :
    FirstFailure (nodes ++ others) e := by
  induction nodes with
  | nil => exact h
  | cons node nodes ih =>
      obtain ⟨hnode, hnodes⟩ := List.forall_mem_cons.mp hall
      exact .later hnode (ih hnodes)

theorem not_forall_representable (h : FirstFailure nodes e) :
    ¬ ∀ node ∈ nodes, node.Representable := by
  intro hall
  induction h with
  | here h => exact h.not_representable (List.forall_mem_cons.mp hall).1
  | later _ _ ih => exact ih (List.forall_mem_cons.mp hall).2

theorem unique (h : FirstFailure nodes e) (h' : FirstFailure nodes cause) : e = cause := by
  induction h with
  | here h =>
      cases h' with
      | here h' => exact h.unique h'
      | later hnode _ => exact absurd hnode h.not_representable
  | later hnode _ ih =>
      cases h' with
      | here h' => exact absurd hnode h'.not_representable
      | later _ h' => exact ih h'

end FirstFailure

/-- What comes of an operator on rolls that have the numbers of the two sides. -/
theorem combine_cases_of_sides {left right : RollTree} {l r : Roll} {op : Operator}
    (hltotal : l.total.toInt = left.total) (hrtotal : r.total.toInt = right.total)
    (hlmodifier : l.modifier.toInt = left.modifier)
    (hrmodifier : r.modifier.toInt = right.modifier) :
    (∃ roll, l.combine op r = .ok roll ∧ roll.total.toInt = (binary left op right).total ∧
      roll.modifier.toInt = (binary left op right).modifier ∧
      (binary left op right).Representable) ∨
    ∃ e, l.combine op r = .error e ∧ (binary left op right).Fails e := by
  simp only [Representable, Fails, DividesByZero, total, modifier, ← hltotal, ← hrtotal,
    ← hlmodifier, ← hrmodifier]
  by_cases hzero : op = .div ∧ r.total.toInt = 0
  · exact .inr ⟨.zeroDivision, Roll.combine_of_zeroDivision hzero, .inl ⟨hzero, rfl⟩⟩
  · by_cases hfits : FitsInt64 (op.exact l.total.toInt r.total.toInt) ∧
        FitsInt64 (op.exactModifier l.modifier.toInt r.modifier.toInt)
    · obtain ⟨roll, hroll⟩ := Roll.exists_combine_iff.mpr ⟨hzero, hfits⟩
      obtain ⟨htotal, hmodifier⟩ := Roll.toInt_of_combine hroll
      exact .inl ⟨roll, hroll, htotal, hmodifier, hzero, hfits⟩
    · exact .inr ⟨.overflow, Roll.combine_of_overflow hzero hfits, .inr ⟨hzero, hfits, rfl⟩⟩

/-- By induction on the tree: an operator that is reached has the numbers of its sides in the
integers. -/
theorem combine_cases (t : RollTree) :
    (∃ roll, t.combine = .ok roll ∧ roll.total.toInt = t.total ∧ roll.modifier.toInt = t.modifier ∧
      ∀ node ∈ t.nodes, node.Representable) ∨
    ∃ e, t.combine = .error e ∧ FirstFailure t.nodes e := by
  induction t with
  | operand roll =>
      refine .inl ⟨roll, rfl, rfl, rfl, ?_⟩
      intro node hnode
      obtain rfl := List.mem_singleton.mp hnode
      exact ⟨id, fitsInt64_toInt roll.total, fitsInt64_toInt roll.modifier⟩
  | binary left op right ihl ihr =>
      rcases ihl with ⟨l, hl, hltotal, hlmodifier, hlnodes⟩ | ⟨e, hl, hfirst⟩
      · rcases ihr with ⟨r, hr, hrtotal, hrmodifier, hrnodes⟩ | ⟨e, hr, hfirst⟩
        · have hcombine : (binary left op right).combine = l.combine op r := by
            rw [combine, hl, hr]
            rfl
          have hsides : ∀ node ∈ left.nodes ++ right.nodes, node.Representable :=
            List.forall_mem_append.mpr ⟨hlnodes, hrnodes⟩
          rw [hcombine]
          rcases combine_cases_of_sides hltotal hrtotal hlmodifier hrmodifier with
            ⟨roll, hroll, htotal, hmodifier, hnode⟩ | ⟨e, herror, hnode⟩
          · refine .inl ⟨roll, hroll, htotal, hmodifier, ?_⟩
            exact List.forall_mem_append.mpr ⟨hsides, by simpa using hnode⟩
          · exact .inr ⟨e, herror, .append_left hsides (.here hnode)⟩
        · have hcombine : (binary left op right).combine = .error e := by
            rw [combine, hl, hr]
            rfl
          exact .inr ⟨e, hcombine, (hfirst.append_left hlnodes).append_right _⟩
      · have hcombine : (binary left op right).combine = .error e := by
          rw [combine, hl]
          rfl
        exact .inr ⟨e, hcombine, (hfirst.append_right _).append_right _⟩

theorem exists_combine_iff : (∃ roll, t.combine = .ok roll) ↔
    ∀ node ∈ t.nodes, node.Representable := by
  constructor
  · rintro ⟨roll, hroll⟩
    rcases t.combine_cases with ⟨_, -, -, -, hnodes⟩ | ⟨e, herror, -⟩
    · exact hnodes
    · rw [hroll] at herror
      cases herror
  · intro hnodes
    rcases t.combine_cases with ⟨roll, hroll, -⟩ | ⟨e, -, hfirst⟩
    · exact ⟨roll, hroll⟩
    · exact absurd hnodes hfirst.not_forall_representable

theorem toInt_of_combine {roll : Roll} (h : t.combine = .ok roll) :
    roll.total.toInt = t.total ∧ roll.modifier.toInt = t.modifier := by
  rcases t.combine_cases with ⟨_, hroll, htotal, hmodifier, -⟩ | ⟨e, herror, -⟩
  · rw [h] at hroll
    cases hroll
    exact ⟨htotal, hmodifier⟩
  · rw [h] at herror
    cases herror

theorem combine_eq_error_iff : t.combine = .error e ↔ FirstFailure t.nodes e := by
  rcases t.combine_cases with ⟨roll, hroll, -, -, hnodes⟩ | ⟨cause, herror, hcause⟩
  · rw [hroll]
    constructor
    · intro h
      cases h
    · intro hfirst
      exact absurd hnodes hfirst.not_forall_representable
  · rw [herror]
    constructor
    · intro h
      cases h
      exact hcause
    · intro hfirst
      rw [hcause.unique hfirst]

end RollTree

/-! ## Trees of rolls on the machine -/

variable {σ : Type}

theorem Play.exists_of_bind_eq_ok {α β : Type} {play : Play σ α} {next : α → Play σ β} {b : β}
    {s s' : σ} (h : (play >>= next) s = (.ok b, s')) :
    ∃ a after, play s = (.ok a, after) ∧ next a after = (.ok b, s') := by
  rw [bind_apply] at h
  rcases hplay : play s with ⟨e | a, after⟩
  · rw [hplay] at h
    cases h
  · rw [hplay] at h
    exact ⟨a, after, rfl, h⟩

namespace Expr

/-- Rolls the operands of an expression from left to right and applies no operator. -/
def rolled (table : Table) (source : Source σ) : Expr → Play σ RollTree
  | binary left op right => do
    let l ← left.rolled table source
    let r ← right.rolled table source
    return .binary l op r
  | operand => do
    let roll ← operand.roll table source
    return .operand roll

/-- The operators are applied between the draws, and an operator that fails stops them. So what comes
of an expression is known from its operands, and the state as well if no operator fails. -/
theorem roll_of_rolled {table : Table} {source : Source σ} {e : Expr} {s s' : σ} {t : RollTree}
    (h : e.rolled table source s = (.ok t, s')) :
    ∃ after, e.roll table source s = (t.combine, after) ∧
      ∀ roll, t.combine = .ok roll → after = s' := by
  induction e generalizing s s' t with
  | number value =>
      cases h
      exact ⟨s, rfl, fun _ _ => rfl⟩
  | dice literal =>
      obtain ⟨roll, after, hroll, hnext⟩ := Play.exists_of_bind_eq_ok h
      cases hnext
      exact ⟨s', hroll, fun _ _ => rfl⟩
  | binary left op right ihl ihr =>
      obtain ⟨l, middle, hl, hnext⟩ := Play.exists_of_bind_eq_ok h
      obtain ⟨r, last, hr, hnext⟩ := Play.exists_of_bind_eq_ok hnext
      cases hnext
      obtain ⟨afterLeft, hleft, hsame⟩ := ihl hl
      obtain ⟨afterRight, hright, hsame'⟩ := ihr hr
      simp only [roll, Play.bind_apply, hleft, RollTree.combine]
      cases hlcombine : l.combine with
      | error e => exact ⟨afterLeft, rfl, fun _ h => by cases h⟩
      | ok lroll =>
          obtain rfl := hsame lroll hlcombine
          simp only [hright]
          cases hrcombine : r.combine with
          | error e => exact ⟨afterRight, rfl, fun _ h => by cases h⟩
          | ok rroll =>
              obtain rfl := hsame' rroll hrcombine
              exact ⟨afterRight, rfl, fun _ _ => rfl⟩

end Expr

/-- **Arithmetic is exact or reported.** The operators of a tree can be applied exactly when no node
divides by zero and every node has a total and a modifier in 64 bits, as numbers in the integers; then
these are the numbers of the roll. Otherwise the first node in post-order that is not so decides the
error: `zeroDivision` if it divides by zero, else `overflow`. The machine answers a formula that passes
the check by the tree of its operands. -/
theorem RollTree.combine_exact (t : RollTree) :
    ((∃ roll, t.combine = .ok roll) ↔ ∀ node ∈ t.nodes, node.Representable) ∧
    (∀ roll, t.combine = .ok roll →
      roll.total.toInt = t.total ∧ roll.modifier.toInt = t.modifier) ∧
    (∀ e, t.combine = .error e ↔ FirstFailure t.nodes e) ∧
    ∀ {σ : Type} (table : Table) (source : Source σ) (e : Expr) (text : String) (s s' : σ),
      table.check e.postOrder = .ok () → e.rolled table source s = (.ok t, s') →
      (table.evaluate source ⟨e.postOrder, text⟩ s).1 =
        (fun roll => { roll with label := text }) <$> t.combine := by
  refine ⟨exists_combine_iff, fun _ => toInt_of_combine, fun _ => combine_eq_error_iff, ?_⟩
  intro σ table source e text s s' hcheck hrolled
  obtain ⟨after, hroll, -⟩ := Expr.roll_of_rolled hrolled
  rw [Table.evaluate_postOrder hcheck, map_eq_pure_bind, Play.bind_apply, hroll]
  cases t.combine <;> rfl

/-- `9223372036854775807 - 1d6 + 1` where the source answers 4: the total would be a 64-bit number,
but the modifier would not. -/
theorem RollTree.combine_exact_modifier :
    let sixes : Literal := ⟨"1d6", .plain .one ⟨6, by decide, by decide⟩ .standard⟩
    let table : Table := { limits := { constant := 9223372036854775807 } }
    let e : Expr :=
      .binary (.binary (.number 9223372036854775807) .sub (.dice sixes)) .add (.number 1)
    let t : RollTree :=
      .binary (.binary (.operand (.constant 9223372036854775807)) .sub
        (.operand ⟨4, [4], [], 0, "1d6", []⟩)) .add (.operand (.constant 1))
    t.total = 9223372036854775804 ∧ FirstFailure t.nodes .overflow ∧
      (table.evaluate (Script.source []) ⟨e.postOrder, ""⟩ ⟨[4], .error⟩).1 = .error .overflow := by
  intro sixes table e t
  have hoverflow : t.combine = .error .overflow := by rfl
  obtain ⟨-, -, hfailure, hmachine⟩ := combine_exact t
  refine ⟨by rfl, (hfailure .overflow).mp hoverflow, ?_⟩
  rw [hmachine table (Script.source []) e "" ⟨[4], .error⟩ ⟨[], .error⟩ (by rfl) (by rfl), hoverflow]
  rfl

example : (RollTree.binary (.operand (.constant Int64.minValue)) .div
    (.operand (.constant (-1)))).combine = .error .overflow := by rfl

end DiceNotation
