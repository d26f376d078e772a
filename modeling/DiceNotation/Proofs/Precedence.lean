import DiceNotation.Infix
import DiceNotation.Proofs.ExprShape

/-!
# Precedence and associativity

The pass to post-order against the infix grammar. A phrase of rank `n` leaves operators of rank at
least `n` on the stack and has put out the rest of its post-order; the levels of the grammar fit
together because an operator of rank `n` releases exactly what its left side has left there.
-/

namespace DiceNotation

namespace Infix

/-- The least precedence of an operator outside parentheses in a phrase. -/
def Level.rank : Level → Nat
  | sum => 1
  | product => 2
  | factor => 3

end Infix

namespace PostOrder

open Infix

/-- The stack keeps what it has when an operator of at least this rank comes in. -/
def Blocks (rank : Nat) : List Pending → Prop
  | .operator top :: _ => top.precedence < rank
  | _ => True

theorem Blocks.mono {m n : Nat} {stack : List Pending} (hmn : m ≤ n)
    (h : Blocks m stack) : Blocks n stack := by
  match stack, h with
  | [], _ => trivial
  | .paren :: _, _ => trivial
  | .operator _ :: _, h => exact Nat.lt_of_lt_of_le h hmn

theorem release_append {op : Operator} {held : List Operator} {stack : List Pending}
    (hheld : ∀ top ∈ held, op.precedence ≤ top.precedence)
    (hstack : Blocks op.precedence stack) :
    release op (held.map .operator ++ stack) = (held, stack) := by
  induction held with
  | nil =>
      match stack, hstack with
      | [], _ => rfl
      | .paren :: _, _ => rfl
      | .operator top :: below, h =>
          have htop : top.precedence < op.precedence := h
          simp only [List.map_nil, List.nil_append, release, if_pos htop]
  | cons top held ih =>
      have htop : ¬ top.precedence < op.precedence :=
        Nat.not_lt.mpr (hheld top List.mem_cons_self)
      have hrest := ih fun t ht => hheld t (List.mem_cons_of_mem _ ht)
      simp only [List.map_cons, List.cons_append, release, if_neg htop, hrest]

theorem close?_append (held : List Operator) (stack : List Pending) :
    close? (held.map .operator ++ .paren :: stack) = some (held, stack) := by
  induction held with
  | nil => rfl
  | cons top held ih => simp [close?, ih]

theorem convert?_close (held : List Operator) (stack : List Pending) (rest : List Token) :
    convert? (held.map .operator ++ .paren :: stack) (.rightParen :: rest) =
      (convert? stack rest).map (held.map .operator ++ ·) := by
  simp only [convert?, close?_append]

theorem convert?_operator {op : Operator} {held : List Operator} {stack : List Pending}
    (hheld : ∀ top ∈ held, op.precedence ≤ top.precedence)
    (hstack : Blocks op.precedence stack) (rest : List Token) :
    convert? (held.map .operator ++ stack) (.operator op :: rest) =
      (convert? (.operator op :: stack) rest).map (held.map .operator ++ ·) := by
  simp only [convert?, release_append hheld hstack]

theorem flush?_operators (held : List Operator) :
    flush? (held.map .operator) = some held := by
  induction held with
  | nil => rfl
  | cons top held ih => simp [flush?, ih]

/-- Reading the tokens of a phrase puts out `emitted` and leaves `held` on the stack. -/
structure Reads (rank : Nat) (tokens : List Token) (e : Expr)
    (emitted : List Token) (held : List Operator) : Prop where
  postOrder_eq : emitted ++ held.map .operator = e.postOrder
  rank_le : ∀ op ∈ held, rank ≤ op.precedence
  convert?_eq : ∀ (stack : List Pending) (rest : List Token), Blocks rank stack →
    convert? stack (tokens ++ rest) =
      (convert? (held.map .operator ++ stack) rest).map (emitted ++ ·)

namespace Reads

variable {m n : Nat} {tokens left right emitted outl outr : List Token} {e l r : Expr}
  {op : Operator} {held heldl heldr : List Operator}

theorem mono (hmn : m ≤ n) (h : Reads n tokens e emitted held) :
    Reads m tokens e emitted held where
  postOrder_eq := h.postOrder_eq
  rank_le := fun op hop => Nat.le_trans hmn (h.rank_le op hop)
  convert?_eq := fun stack rest hstack => h.convert?_eq stack rest (hstack.mono hmn)

theorem number (n : Nat) (value : Int64) :
    Reads n [.number value] (.number value) [.number value] [] where
  postOrder_eq := rfl
  rank_le := by simp
  convert?_eq := by intro stack rest _; rfl

theorem dice (n : Nat) (literal : Literal) :
    Reads n [.dice literal] (.dice literal) [.dice literal] [] where
  postOrder_eq := rfl
  rank_le := by simp
  convert?_eq := by intro stack rest _; rfl

/-- The open parenthesis shields the stack below it, and the closing one empties what is above. -/
theorem parens (n : Nat) (h : Reads m tokens e emitted held) :
    Reads n (.leftParen :: tokens ++ [.rightParen]) e (emitted ++ held.map .operator) [] where
  postOrder_eq := by simpa using h.postOrder_eq
  rank_le := by simp
  convert?_eq := by
    intro stack rest _
    have hinner := h.convert?_eq (.paren :: stack) (.rightParen :: rest) trivial
    rw [convert?_close, Option.map_map] at hinner
    simp only [List.cons_append, List.append_assoc, List.nil_append, List.map_nil]
    rw [convert?, hinner]
    rfl

/-- The incoming operator releases what the left side holds, and stays under what the right side
leaves. -/
theorem binary (hop : op.precedence = n) (hl : Reads n left l outl heldl)
    (hr : Reads (n + 1) right r outr heldr) :
    Reads n (left ++ .operator op :: right) (.binary l op r)
      (outl ++ heldl.map .operator ++ outr) (heldr ++ [op]) where
  postOrder_eq := by
    simp only [Expr.postOrder, ← hl.postOrder_eq, ← hr.postOrder_eq, List.map_append,
      List.append_assoc]
    rfl
  rank_le := by
    intro top htop
    rcases List.mem_append.mp htop with h | h
    · exact Nat.le_of_succ_le (hr.rank_le top h)
    · obtain rfl := List.mem_singleton.mp h
      exact Nat.le_of_eq hop.symm
  convert?_eq := by
    subst hop
    intro stack rest hstack
    -- What blocks the left side blocks the operator too, which then blocks the right side.
    have hleft := hl.convert?_eq stack (.operator op :: (right ++ rest)) hstack
    have hright := hr.convert?_eq (.operator op :: stack) rest (Nat.lt_succ_self _)
    rw [convert?_operator hl.rank_le hstack, hright, Option.map_map, Option.map_map] at hleft
    simp only [List.append_assoc, List.cons_append, List.map_append, List.map_cons,
      List.map_nil, List.nil_append]
    rw [hleft]
    rfl

end Reads

theorem exists_reads {level : Level} {tokens : List Token} {e : Expr}
    (h : Derives level tokens e) :
    ∃ emitted held, Reads level.rank tokens e emitted held := by
  induction h with
  | number value => exact ⟨_, _, .number _ value⟩
  | dice literal => exact ⟨_, _, .dice _ literal⟩
  | parens _ ih =>
      obtain ⟨emitted, held, hreads⟩ := ih
      exact ⟨_, _, hreads.parens _⟩
  | factor _ ih =>
      obtain ⟨emitted, held, hreads⟩ := ih
      exact ⟨emitted, held, hreads.mono (by decide)⟩
  | term _ ih =>
      obtain ⟨emitted, held, hreads⟩ := ih
      exact ⟨emitted, held, hreads.mono (by decide)⟩
  | product hop _ _ ihl ihr =>
      obtain ⟨outl, heldl, hl⟩ := ihl
      obtain ⟨outr, heldr, hr⟩ := ihr
      rcases hop with rfl | rfl <;> exact ⟨_, _, .binary rfl hl hr⟩
  | sum hop _ _ ihl ihr =>
      obtain ⟨outl, heldl, hl⟩ := ihl
      obtain ⟨outr, heldr, hr⟩ := ihr
      rcases hop with rfl | rfl <;> exact ⟨_, _, .binary rfl hl hr⟩

theorem convert?_of_derives {tokens : List Token} {e : Expr}
    (h : Derives .sum tokens e) : convert? [] tokens = some e.postOrder := by
  obtain ⟨emitted, held, hreads⟩ := exists_reads h
  have hconvert := hreads.convert?_eq [] [] trivial
  have hflush : convert? (held.map .operator) [] = some (held.map .operator) := by
    simp [convert?, flush?_operators]
  rw [List.append_nil, List.append_nil, hflush] at hconvert
  rw [hconvert, Option.map_some, hreads.postOrder_eq]

/-- **The grammar's tree.** A list that the infix grammar derives is put into the post-order of its
derivation tree, and it has only that tree. -/
theorem ofInfix_of_derives {tokens : List Token} {e : Expr} (h : Derives .sum tokens e) :
    ofInfix tokens = .ok e.postOrder ∧ ∀ e', Derives .sum tokens e' → e' = e := by
  have hconvert := convert?_of_derives h
  refine ⟨by simp [ofInfix, hconvert], ?_⟩
  intro e' h'
  have hsame : some e'.postOrder = some e.postOrder :=
    (convert?_of_derives h').symm.trans hconvert
  exact Expr.postOrder_injective (Option.some.inj hsame)

/-- `8 - (4 - 1d6) * 2 - 3` -/
theorem ofInfix_of_derives_parens :
    ofInfix [.number 8, .operator .sub, .leftParen, .number 4, .operator .sub,
        .dice ⟨"1d6", .plain .one ⟨6, by decide, by decide⟩ .standard⟩, .rightParen,
        .operator .mul, .number 2, .operator .sub, .number 3] =
      .ok [.number 8, .number 4, .dice ⟨"1d6", .plain .one ⟨6, by decide, by decide⟩ .standard⟩,
        .operator .sub, .number 2, .operator .mul, .operator .sub, .number 3, .operator .sub] :=
  have hdifference := Derives.sum (.inr rfl) (.term (.factor (.number 4)))
    (.factor (.dice ⟨"1d6", .plain .one ⟨6, by decide, by decide⟩ .standard⟩))
  have hproduct := Derives.product (.inl rfl) (.factor (.parens hdifference)) (.number 2)
  have hleft := Derives.sum (.inr rfl) (.term (.factor (.number 8))) hproduct
  (ofInfix_of_derives (Derives.sum (.inr rfl) hleft (.factor (.number 3)))).1

end PostOrder

end DiceNotation
