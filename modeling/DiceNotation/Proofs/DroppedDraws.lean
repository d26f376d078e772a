import DiceNotation.Roll.Basic
import Mathlib

/-!
# Dropped draws

A roll lists its dropped positions in ascending order, and two readers of the list rely on that. The
lookup halves it, and the rendering walks along it in step with the draws, where one position out of
order would hide all those behind it. Both tell of every position whether it is in the list.
-/

namespace DiceNotation

namespace Roll

variable {dropped : List Nat} {target i : Nat}

/-! ## The lookup -/

/-- What is halved keeps holding the target, so the bisection ends where the target is. -/
theorem bisect_eq (hsorted : dropped.Pairwise (· < ·)) (htarget : dropped[i]? = some target)
    (base size : Nat) (hle : base ≤ i) (hlt : i < base + size)
    (hend : base + size ≤ dropped.length) : bisect dropped.toArray target base size = i := by
  have hmonotone := List.pairwise_iff_getElem.mp hsorted
  obtain ⟨hi, hvalue⟩ := List.getElem?_eq_some_iff.mp htarget
  induction base, size using bisect.induct dropped.toArray target with
  | case1 base size hone =>
      rw [bisect, if_pos hone]
      omega
  | case2 base size hone half middle base' ih =>
      have hmiddle : middle < dropped.length := by omega
      have hread : (dropped.toArray[middle]?).getD 0 = dropped[middle] := by
        simp [hmiddle]
      rw [bisect, if_neg hone]
      by_cases habove : dropped[middle] > target
      · -- the target stands before the middle
        have hbase : base' = base := if_pos (hread ▸ habove)
        have hbefore : i < middle := by
          by_contra hnot
          rcases Nat.eq_or_lt_of_le (Nat.le_of_not_lt hnot) with heq | hafter
          · subst heq
            omega
          · have horder := hmonotone middle i hmiddle hi hafter
            omega
        exact ih (by omega) (by omega) (by omega)
      · have hbase : base' = middle := if_neg (hread ▸ habove)
        have hafter : middle ≤ i := by
          by_contra hnot
          have horder := hmonotone i middle hi hmiddle (Nat.lt_of_not_le hnot)
          omega
        exact ih (by omega) (by omega) (by omega)

theorem isDropped_iff {roll : Roll} (hsorted : roll.dropped.Pairwise (· < ·)) (i : Nat) :
    roll.isDropped i = true ↔ i ∈ roll.dropped := by
  rw [isDropped, beq_iff_eq, List.getElem?_toArray]
  constructor
  · exact List.mem_of_getElem?
  · intro hmem
    obtain ⟨k, hk⟩ := List.mem_iff_getElem?.mp hmem
    obtain ⟨hlt, -⟩ := List.getElem?_eq_some_iff.mp hk
    have hfound := bisect_eq hsorted hk 0 roll.dropped.length (Nat.zero_le k) (by omega) (by omega)
    rw [List.size_toArray, hfound]
    exact hk

end Roll

/-! ## The rendering -/

/-- A draw as it is shown: its value, and whether it is struck out. -/
structure ShownDraw where
  value : Int64
  struck : Bool
deriving DecidableEq

def ShownDraw.render (draw : ShownDraw) : String :=
  let text := String.ofList (Numeral.ofInt64 draw.value)
  if draw.struck then "~" ++ text ++ "~" else text

namespace Roll

/-- The draws, struck out where the lookup finds them dropped. -/
def shownDraws (roll : Roll) : List ShownDraw :=
  roll.draws.mapIdx fun i value => ⟨value, roll.isDropped i⟩

variable {dropped : List Nat} {draws : List Int64} {i : Nat}

/-- The walk looks at the head of the list alone. -/
theorem head?_eq_some_iff_mem (hsorted : dropped.Pairwise (· < ·)) (hstart : ∀ j ∈ dropped, i ≤ j) :
    dropped.head? = some i ↔ i ∈ dropped := by
  refine ⟨List.mem_of_mem_head?, ?_⟩
  intro hmem
  cases dropped with
  | nil => cases hmem
  | cons first rest =>
      rcases List.mem_cons.mp hmem with rfl | hlater
      · rfl
      · have hlt := (List.pairwise_cons.mp hsorted).1 i hlater
        have hle := hstart first List.mem_cons_self
        omega

/-- By induction on the draws that are left: the rest of the list is in order, and no position of it
is behind the walk. -/
theorem renderDraws_eq_mapIdx (hsorted : dropped.Pairwise (· < ·)) (hstart : ∀ j ∈ dropped, i ≤ j) :
    renderDraws i dropped draws =
      draws.mapIdx fun j value => ShownDraw.render ⟨value, decide (i + j ∈ dropped)⟩ := by
  induction draws generalizing i dropped with
  | nil => rfl
  | cons value draws ih =>
      rw [renderDraws, List.mapIdx_cons]
      by_cases hhead : dropped.head? = some i
      · obtain ⟨rest, rfl⟩ := List.head?_eq_some_iff.mp hhead
        obtain ⟨hafter, hrest⟩ := List.pairwise_cons.mp hsorted
        rw [if_pos hhead, List.tail_cons, ih hrest hafter]
        have hlater : ∀ j, i + 1 + j ∈ rest ↔ i + (j + 1) ∈ i :: rest := by
          intro j
          have hne : i + (j + 1) ≠ i := by omega
          have hsum : i + 1 + j = i + (j + 1) := by omega
          rw [List.mem_cons, or_iff_right hne, hsum]
        simp only [hlater, Nat.add_zero, List.mem_cons_self, decide_true]
        rfl
      · have hnot : i ∉ dropped := (head?_eq_some_iff_mem hsorted hstart).not.mp hhead
        have hbehind : ∀ j ∈ dropped, i + 1 ≤ j := by
          intro j hj
          have hne : i ≠ j := by
            rintro rfl
            exact hnot hj
          exact Nat.lt_of_le_of_ne (hstart j hj) hne
        rw [if_neg hhead, ih hsorted hbehind]
        simp only [Nat.add_zero, hnot, decide_false, Nat.add_assoc, Nat.add_comm 1]
        rfl

/-- The rendering and the lookup agree on every draw. -/
theorem renderDraws_eq_map {roll : Roll} (hsorted : roll.dropped.Pairwise (· < ·)) :
    renderDraws 0 roll.dropped roll.draws = roll.shownDraws.map ShownDraw.render := by
  have hlookup : ∀ i, decide (i ∈ roll.dropped) = roll.isDropped i := by
    intro i
    exact Bool.eq_iff_iff.mpr (by rw [decide_eq_true_eq, isDropped_iff hsorted])
  rw [renderDraws_eq_mapIdx hsorted fun j _ => Nat.zero_le j]
  apply List.ext_getElem
  · simp [shownDraws]
  · intro i hi hi'
    simp [shownDraws, hlookup]

end Roll

end DiceNotation
