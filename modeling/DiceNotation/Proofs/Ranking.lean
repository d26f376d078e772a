import DiceNotation.Proofs.Selection
import Mathlib.Data.List.Perm.Subperm

/-!
# What a selection drops

Of two positions of a group one always ranks below the other: the one of the smaller value, or of
equal values the one in front. A ranking lists the positions in this order because merge sort is
stable, and a selection drops one end of it. How many positions that are, and at which end, leaves
no choice, so `Selection.Drops` says what is dropped without mention of a ranking.
-/

namespace DiceNotation.Selection

/-! ## The order of positions -/

/-- The value at `i` is smaller than that at `j`, or they are equal and `i` is in front. -/
def Below (values : List Int64) (i j : Nat) : Prop :=
  ∃ a b, values[i]? = some a ∧ values[j]? = some b ∧ (a < b ∨ a = b ∧ i < j)

theorem Below.asymm {values : List Int64} {i j : Nat} (h : Below values i j) :
    ¬ Below values j i := by
  rintro ⟨b, a, hb, ha, hback⟩
  obtain ⟨a', b', ha', hb', hforth⟩ := h
  obtain rfl : a = a' := Option.some.inj (ha.symm.trans ha')
  obtain rfl : b = b' := Option.some.inj (hb.symm.trans hb')
  rcases hforth with hlt | ⟨rfl, hlt⟩
  · rcases hback with hgt | ⟨rfl, -⟩
    · exact Int64.lt_asymm hlt hgt
    · exact Int64.lt_irrefl hlt
  · rcases hback with hgt | ⟨-, hgt⟩
    · exact Int64.lt_irrefl hgt
    · omega

theorem ranking_sorted (values : List Int64) : (ranking values).Pairwise (Below values) := by
  let le : Int64 × Nat → Int64 × Nat → Bool := fun a b => decide (a.1 ≤ b.1)
  have htrans : ∀ a b c, le a b = true → le b c = true → le a c = true := by
    intro a b c hab hbc
    exact decide_eq_true (Int64.le_trans (of_decide_eq_true hab) (of_decide_eq_true hbc))
  have htotal : ∀ a b, (le a b || le b a) = true := by
    intro a b
    simpa [le] using Int64.le_total a.1 b.1
  -- a stable sort puts equal values as if the position broke the tie
  have hstable : ranking values =
      (values.zipIdx.zipIdx.mergeSort (List.zipIdxLE le)).map (·.1.2) := by
    rw [ranking, ← List.mergeSort_zipIdx, List.map_map]
    rfl
  have hranked : (ranking values).Pairwise fun i j =>
      ∃ a b, values[i]? = some a ∧ values[j]? = some b ∧ (a < b ∨ a = b ∧ i ≤ j) := by
    rw [hstable, List.pairwise_map]
    have hsorted := List.pairwise_mergeSort (List.zipIdxLE_trans htrans)
      (List.zipIdxLE_total htotal) values.zipIdx.zipIdx
    refine hsorted.imp_of_mem ?_
    rintro ⟨⟨a, _⟩, i⟩ ⟨⟨b, _⟩, j⟩ ha hb hle
    rw [List.mem_mergeSort, List.mk_mem_zipIdx_iff_getElem?] at ha hb
    simp only [List.getElem?_zipIdx, Nat.zero_add, Option.map_eq_some_iff, Prod.mk.injEq] at ha hb
    obtain ⟨a, ha, rfl, rfl⟩ := ha
    obtain ⟨b, hb, rfl, rfl⟩ := hb
    refine ⟨a, b, ha, hb, ?_⟩
    obtain ⟨hab, hlt | hij⟩ : a ≤ b ∧ (a < b ∨ i ≤ j) := by
      simpa [List.zipIdxLE, le] using hle
    · exact .inl hlt
    · rcases Int64.lt_or_eq_of_le hab with hlt | heq
      · exact .inl hlt
      · exact .inr ⟨heq, hij⟩
  refine hranked.imp₂ ?_ (ranking_nodup values)
  rintro i j ⟨a, b, ha, hb, hle⟩ hne
  refine ⟨a, b, ha, hb, hle.imp_right ?_⟩
  rintro ⟨hab, hij⟩
  exact ⟨hab, Nat.lt_of_le_of_ne hij hne⟩

/-! ## The two ends of a ranking -/

/-- Keeping the high values and dropping the low ones both keep the upper end. -/
def keepsHigh (s : Selection) : Bool :=
  match s.mode, s.direction with
  | .keep, .high | .drop, .low => true
  | .keep, .low | .drop, .high => false

/-- How many of so many values are dropped. -/
def dropCount (s : Selection) (size : Nat) : Nat :=
  match s.mode with
  | .keep => size - s.amount.val
  | .drop => min size s.amount.val

/-- The part of a ranking that is not cut off. -/
def rest {α : Type} (s : Selection) (ranked : List α) : List α :=
  if s.keepsHigh then ranked.drop (s.dropCount ranked.length)
  else ranked.take (ranked.length - s.dropCount ranked.length)

theorem dropCount_le (s : Selection) (size : Nat) : s.dropCount size ≤ size := by
  unfold dropCount
  split <;> omega

theorem cut_eq (s : Selection) (ranked : List Nat) :
    s.cut ranked = if s.keepsHigh then ranked.take (s.dropCount ranked.length)
      else ranked.drop (ranked.length - s.dropCount ranked.length) := by
  obtain ⟨mode, direction, amount⟩ := s
  cases mode with
  | keep =>
      cases direction with
      | high => rfl
      | low =>
          rcases Nat.le_total amount.val ranked.length with hle | hle
          · simp [cut, keepsHigh, dropCount, Nat.sub_sub_self hle]
          · simp [cut, keepsHigh, dropCount, hle]
  | drop =>
      cases direction with
      | high =>
          rcases Nat.le_total amount.val ranked.length with hle | hle
          · simp [cut, keepsHigh, dropCount, Nat.min_eq_right hle]
          · simp [cut, keepsHigh, dropCount, hle]
      | low =>
          rcases Nat.le_total amount.val ranked.length with hle | hle
          · simp [cut, keepsHigh, dropCount, Nat.min_eq_right hle]
          · simp [cut, keepsHigh, dropCount, hle, List.take_of_length_le]

theorem cut_append_rest {s : Selection} (h : s.keepsHigh = true) (ranked : List Nat) :
    s.cut ranked ++ s.rest ranked = ranked := by
  rw [cut_eq, rest, if_pos h, if_pos h, List.take_append_drop]

theorem rest_append_cut {s : Selection} (h : s.keepsHigh = false) (ranked : List Nat) :
    s.rest ranked ++ s.cut ranked = ranked := by
  have hnot : ¬ s.keepsHigh = true := by simp [h]
  rw [cut_eq, rest, if_neg hnot, if_neg hnot, List.take_append_drop]

theorem cut_append_rest_perm (s : Selection) (ranked : List Nat) :
    (s.cut ranked ++ s.rest ranked).Perm ranked := by
  cases hend : s.keepsHigh with
  | true => exact .of_eq (cut_append_rest hend ranked)
  | false => exact List.perm_append_comm.trans (.of_eq (rest_append_cut hend ranked))

theorem length_cut (s : Selection) (ranked : List Nat) :
    (s.cut ranked).length = s.dropCount ranked.length := by
  have hle := s.dropCount_le ranked.length
  rw [cut_eq]
  split
  · simp [hle]
  · simp only [List.length_drop]
    omega

/-! ## The positions that are dropped -/

theorem length_dropped (s : Selection) (values : List Int64) :
    (s.dropped values).length = s.dropCount values.length := by
  rw [(dropped_perm s values).length_eq, length_cut, (ranking_perm values).length_eq,
    List.length_range]

/-- A position that is not dropped stands in the rest of the ranking. -/
theorem mem_rest_ranking_iff {s : Selection} {values : List Int64} {i : Nat} :
    i ∈ s.rest (ranking values) ↔ i < values.length ∧ i ∉ s.dropped values := by
  have hall := s.cut_append_rest_perm (ranking values)
  have hnodup := hall.nodup_iff.mpr (ranking_nodup values)
  have hmem : i < values.length ↔ i ∈ s.cut (ranking values) ∨ i ∈ s.rest (ranking values) := by
    rw [← List.mem_append, hall.mem_iff, (ranking_perm values).mem_iff, List.mem_range]
  rw [hmem, (dropped_perm s values).mem_iff]
  constructor
  · intro hrest
    exact ⟨.inr hrest, fun hcut => (List.nodup_append.mp hnodup).2.2 i hcut i hrest rfl⟩
  · rintro ⟨hcut | hrest, hnot⟩
    · exact absurd hcut hnot
    · exact hrest

/-- The positions are dropped: as many as the selection asks for, in ascending order, and each of
them below every position that is kept, or above if the low values are kept. -/
structure Drops (s : Selection) (values : List Int64) (positions : List Nat) : Prop where
  sorted : positions.Pairwise (· < ·)
  lt_length : ∀ i ∈ positions, i < values.length
  length_eq : positions.length = s.dropCount values.length
  outranked : ∀ i ∈ positions, ∀ j, j < values.length → j ∉ positions →
    if s.keepsHigh then Below values i j else Below values j i

theorem drops_dropped (s : Selection) (values : List Int64) :
    s.Drops values (s.dropped values) where
  sorted := dropped_sorted s values
  lt_length := fun _ => lt_length_of_mem_dropped
  length_eq := length_dropped s values
  outranked := by
    intro i hi j hj hkept
    have hcut : i ∈ s.cut (ranking values) := (dropped_perm s values).mem_iff.mp hi
    have hrest : j ∈ s.rest (ranking values) := mem_rest_ranking_iff.mpr ⟨hj, hkept⟩
    have hsorted := ranking_sorted values
    cases hend : s.keepsHigh with
    | true =>
        rw [← cut_append_rest hend (ranking values), List.pairwise_append] at hsorted
        exact hsorted.2.2 i hcut j hrest
    | false =>
        rw [← rest_append_cut hend (ranking values), List.pairwise_append] at hsorted
        exact hsorted.2.2 j hrest i hcut

/-- One list of dropped positions holds no position that the other one lacks: they are equally long,
so the other one would hold another, and each of the two would rank below the other. -/
theorem Drops.subset {s : Selection} {values : List Int64} {positions others : List Nat}
    (h : s.Drops values positions) (h' : s.Drops values others) : positions ⊆ others := by
  intro i hi
  by_contra hnot
  obtain ⟨j, hj, hlacks⟩ : ∃ j ∈ others, j ∉ positions := by
    by_contra hnone
    have hsubset : others ⊆ positions := by
      intro j hj
      by_contra hlacks
      exact hnone ⟨j, hj, hlacks⟩
    have hnodup : others.Nodup := h'.sorted.imp Nat.ne_of_lt
    have hlength : positions.length = others.length := h.length_eq.trans h'.length_eq.symm
    have hsame := (List.subperm_of_subset hnodup hsubset).perm_of_length_le (Nat.le_of_eq hlength)
    exact hnot (hsame.mem_iff.mpr hi)
  have hforth := h.outranked i hi j (h'.lt_length j hj) hlacks
  have hback := h'.outranked j hj i (h.lt_length i hi) hnot
  cases hend : s.keepsHigh with
  | true =>
      simp only [hend, if_true] at hforth hback
      exact hforth.asymm hback
  | false =>
      simp only [hend] at hforth hback
      exact hforth.asymm hback

theorem Drops.unique {s : Selection} {values : List Int64} {positions others : List Nat}
    (h : s.Drops values positions) (h' : s.Drops values others) : positions = others := by
  have hperm : positions.Perm others :=
    (List.perm_ext_iff_of_nodup (h.sorted.imp Nat.ne_of_lt) (h'.sorted.imp Nat.ne_of_lt)).mpr
      fun _ => ⟨fun hi => h.subset h' hi, fun hi => h'.subset h hi⟩
  refine hperm.eq_of_pairwise ?_ h.sorted h'.sorted
  intro i j _ _ hij hji
  omega

/-- Keeping and dropping the same number at the same end cut the ranking in two. -/
theorem cut_keep_append_cut_drop_perm (direction : Direction) (amount : Quantity)
    (ranked : List Nat) :
    (cut ⟨.keep, direction, amount⟩ ranked ++ cut ⟨.drop, direction, amount⟩ ranked).Perm
      ranked := by
  cases direction with
  | high => exact .of_eq (List.take_append_drop _ ranked)
  | low => exact List.perm_append_comm.trans (.of_eq (List.take_append_drop _ ranked))

/-- **What a selection drops.** The list of dropped positions is the one that `Drops` describes.
What is dropped in order to keep the high values, and what is dropped for the same number of high
values to be dropped, make up all positions, each of them once; and so it is for the low values. -/
theorem dropped_eq_iff_drops (values : List Int64) :
    (∀ (s : Selection) (positions : List Nat),
      s.dropped values = positions ↔ s.Drops values positions) ∧
    ∀ (direction : Direction) (amount : Quantity),
      (dropped ⟨.keep, direction, amount⟩ values ++
        dropped ⟨.drop, direction, amount⟩ values).Perm (List.range values.length) := by
  constructor
  · intro s positions
    constructor
    · rintro rfl
      exact drops_dropped s values
    · exact (drops_dropped s values).unique
  · intro direction amount
    have hcuts := (dropped_perm ⟨.keep, direction, amount⟩ values).append
      (dropped_perm ⟨.drop, direction, amount⟩ values)
    exact (hcuts.trans (cut_keep_append_cut_drop_perm direction amount _)).trans
      (ranking_perm values)

end DiceNotation.Selection
