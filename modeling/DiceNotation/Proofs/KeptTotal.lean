import DiceNotation.Proofs.Ranking
import Mathlib

/-!
# Totals of what is kept

A total is summed up in 64-bit numbers, so it is the sum of the kept values in the integers if that
sum fits, whatever the sums on the way to it do. Of all choices of as many positions the kept ones
have the greatest sum, or the least: any other choice holds dropped positions in place of kept ones,
and each of those ranks on the wrong side of each of these. Which values are kept depends on the
values alone, for they are one end of them in ascending order.
-/

namespace DiceNotation

/-! ## Sums in 64 bits -/

/-- The integer is a 64-bit one. -/
def FitsInt64 (n : Int) : Prop :=
  Int64.minValue.toInt ≤ n ∧ n ≤ Int64.maxValue.toInt

instance (n : Int) : Decidable (FitsInt64 n) :=
  inferInstanceAs (Decidable (_ ∧ _))

theorem toInt_ofInt_of_fits {n : Int} (h : FitsInt64 n) : (Int64.ofInt n).toInt = n := by
  obtain ⟨hmin, hmax⟩ := h
  apply Int64.toInt_ofInt_of_le
  · exact hmin
  · exact Int.lt_add_one_of_le hmax

theorem sum_eq_ofInt (values : List Int64) :
    values.sum = Int64.ofInt (values.map Int64.toInt).sum := by
  induction values with
  | nil => rfl
  | cons value values ih =>
      rw [List.sum_cons, ih, List.map_cons, List.sum_cons, Int64.ofInt_add, Int64.ofInt_toInt]

/-- The sum of the values at some positions, in the integers. -/
def sumAt (values : List Int64) (positions : Finset Nat) : Int :=
  ∑ i ∈ positions, (values[i]?.getD 0).toInt

/-- The positions of a group of this size that are not dropped. -/
def keptPositions (size : Nat) (dropped : List Nat) : Finset Nat :=
  {i ∈ Finset.range size | i ∉ dropped}

def exactTotal (values : List Int64) (dropped : List Nat) : Int :=
  sumAt values (keptPositions values.length dropped)

theorem getElem?_foldl_setIfInBounds (positions : List Nat) (flags : Array Bool) (i : Nat) :
    (positions.foldl (fun flags i => flags.setIfInBounds i true) flags)[i]? =
      flags[i]?.map (· || decide (i ∈ positions)) := by
  induction positions generalizing flags with
  | nil => simp
  | cons position positions ih =>
      rw [List.foldl_cons, ih, Array.getElem?_setIfInBounds]
      by_cases h : position = i
      · subst h
        by_cases hlt : position < flags.size <;> simp [hlt]
      · simp [h, Ne.symm h]

theorem toList_positionFlags (size : Nat) (positions : List Nat) :
    (positionFlags size positions).toList =
      (List.range size).map fun i => decide (i ∈ positions) := by
  apply List.ext_getElem?
  intro i
  rw [Array.getElem?_toList, positionFlags, getElem?_foldl_setIfInBounds]
  by_cases hlt : i < size <;> simp [hlt]

theorem map_getD_range (values : List Int64) :
    (List.range values.length).map (fun i => values[i]?.getD 0) = values := by
  apply List.ext_getElem
  · simp
  · intro i hi hi'
    simp [hi']

/-- The values that are not dropped, in order of position. -/
theorem kept_eq_map (values : List Int64) (dropped : List Nat) :
    kept values dropped =
      ((List.range values.length).filter (· ∉ dropped)).map fun i => values[i]?.getD 0 := by
  have hzip : values.zip (positionFlags values.length dropped).toList =
      (List.range values.length).map fun i => (values[i]?.getD 0, decide (i ∈ dropped)) := by
    rw [toList_positionFlags, ← List.zip_map', map_getD_range]
  rw [kept, hzip, List.filter_map, List.map_map]
  simp [Function.comp_def]

theorem sum_kept (values : List Int64) (dropped : List Nat) :
    ((kept values dropped).map Int64.toInt).sum = exactTotal values dropped := by
  have hpositions : keptPositions values.length dropped =
      ((List.range values.length).filter (· ∉ dropped)).toFinset := by
    ext i
    simp [keptPositions]
  rw [kept_eq_map, List.map_map, exactTotal, sumAt, hpositions,
    List.sum_toFinset _ (List.nodup_range.filter _)]
  rfl

/-- Nothing is asked of the sums on the way: the total is right modulo `2 ^ 64`. -/
theorem keptTotal_eq_ofInt (values : List Int64) (dropped : List Nat) :
    keptTotal values dropped = Int64.ofInt (exactTotal values dropped) := by
  rw [keptTotal, sum_eq_ofInt, sum_kept]

theorem toInt_keptTotal {values : List Int64} {dropped : List Nat}
    (h : FitsInt64 (exactTotal values dropped)) :
    (keptTotal values dropped).toInt = exactTotal values dropped := by
  rw [keptTotal_eq_ofInt, toInt_ofInt_of_fits h]

theorem keptTotal_nil (values : List Int64) : keptTotal values [] = values.sum := by
  have hall : (List.range values.length).filter (· ∉ []) = List.range values.length := by simp
  rw [keptTotal, kept_eq_map, hall, map_getD_range]

/-! ## Other choices of positions -/

/-- The sums of so many of the values, one for each choice of their positions. -/
def choiceSums (values : List Int64) (count : Nat) : Set Int :=
  {total | ∃ positions ⊆ Finset.range values.length,
    positions.card = count ∧ sumAt values positions = total}

/-- Where one choice differs from another, it has values in place of others that are not smaller. -/
theorem sum_le_sum_of_exchange {chosen better : Finset Nat} {f : Nat → Int}
    (hcard : chosen.card = better.card)
    (hle : ∀ i ∈ chosen \ better, ∀ j ∈ better \ chosen, f i ≤ f j) :
    ∑ i ∈ chosen, f i ≤ ∑ j ∈ better, f j := by
  rw [← Finset.sum_sdiff_le_sum_sdiff]
  have hexchanged : (chosen \ better).card = (better \ chosen).card :=
    Finset.card_sdiff_comm hcard
  rcases (chosen \ better).eq_empty_or_nonempty with hnone | hsome
  · have hnone' : better \ chosen = ∅ := by
      rw [← Finset.card_eq_zero, ← hexchanged, hnone, Finset.card_empty]
    rw [hnone, hnone']
  · -- the largest value that is given up separates the two
    obtain ⟨i, hi, hmax⟩ := (chosen \ better).exists_max_image f hsome
    calc ∑ k ∈ chosen \ better, f k
        ≤ (chosen \ better).card • f i := Finset.sum_le_card_nsmul _ _ _ hmax
      _ = (better \ chosen).card • f i := by rw [hexchanged]
      _ ≤ ∑ k ∈ better \ chosen, f k := Finset.card_nsmul_le_sum _ _ _ fun j hj => hle i hi j hj

namespace Selection

variable {s : Selection} {values : List Int64}

/-- How many of so many values are kept. -/
def keepCount (s : Selection) (size : Nat) : Nat :=
  size - s.dropCount size

theorem mem_keptPositions_iff {i : Nat} {dropped : List Nat} :
    i ∈ keptPositions values.length dropped ↔ i < values.length ∧ i ∉ dropped := by
  simp [keptPositions]

theorem card_keptPositions (s : Selection) (values : List Int64) :
    (keptPositions values.length (s.dropped values)).card = s.keepCount values.length := by
  have hnodup : (s.dropped values).Nodup := (dropped_sorted s values).imp Nat.ne_of_lt
  have hkept : keptPositions values.length (s.dropped values) =
      Finset.range values.length \ (s.dropped values).toFinset := by
    ext i
    simp [keptPositions]
  have hsubset : (s.dropped values).toFinset ⊆ Finset.range values.length := by
    intro i hi
    exact Finset.mem_range.mpr (lt_length_of_mem_dropped (List.mem_toFinset.mp hi))
  rw [hkept, Finset.card_sdiff_of_subset hsubset, Finset.card_range,
    List.toFinset_card_of_nodup hnodup, length_dropped, keepCount]

theorem Below.getD_le {i j : Nat} (h : Below values i j) :
    values[i]?.getD 0 ≤ values[j]?.getD 0 := by
  obtain ⟨a, b, ha, hb, hle⟩ := h
  rw [ha, hb]
  rcases hle with hlt | ⟨rfl, -⟩
  · exact Int64.le_of_lt hlt
  · exact Int64.le_refl _

theorem exactTotal_mem_choiceSums (s : Selection) (values : List Int64) :
    exactTotal values (s.dropped values) ∈ choiceSums values (s.keepCount values.length) :=
  ⟨keptPositions values.length (s.dropped values), Finset.filter_subset _ _,
    card_keptPositions s values, rfl⟩

/-- A position of another choice that is not kept is dropped. -/
theorem outranked_of_mem_sdiff {chosen : Finset Nat} (hsubset : chosen ⊆ Finset.range values.length)
    {i j : Nat} (hi : i ∈ chosen \ keptPositions values.length (s.dropped values))
    (hj : j ∈ keptPositions values.length (s.dropped values) \ chosen) :
    if s.keepsHigh then Below values i j else Below values j i := by
  obtain ⟨hchosen, hnot⟩ := Finset.mem_sdiff.mp hi
  have hlt : i < values.length := Finset.mem_range.mp (hsubset hchosen)
  have hdropped : i ∈ s.dropped values := by
    by_contra hkept
    exact hnot (mem_keptPositions_iff.mpr ⟨hlt, hkept⟩)
  obtain ⟨hjlt, hkept⟩ := mem_keptPositions_iff.mp (Finset.mem_sdiff.mp hj).1
  exact (drops_dropped s values).outranked i hdropped j hjlt hkept

theorem isGreatest_exactTotal (h : s.keepsHigh = true) (values : List Int64) :
    IsGreatest (choiceSums values (s.keepCount values.length))
      (exactTotal values (s.dropped values)) := by
  refine ⟨exactTotal_mem_choiceSums s values, ?_⟩
  rintro _ ⟨chosen, hsubset, hcard, rfl⟩
  apply sum_le_sum_of_exchange (hcard.trans (card_keptPositions s values).symm)
  intro i hi j hj
  have hbelow := outranked_of_mem_sdiff hsubset hi hj
  rw [if_pos h] at hbelow
  exact Int64.le_iff_toInt_le.mp hbelow.getD_le

theorem isLeast_exactTotal (h : s.keepsHigh = false) (values : List Int64) :
    IsLeast (choiceSums values (s.keepCount values.length))
      (exactTotal values (s.dropped values)) := by
  refine ⟨exactTotal_mem_choiceSums s values, ?_⟩
  rintro _ ⟨chosen, hsubset, hcard, rfl⟩
  apply sum_le_sum_of_exchange ((card_keptPositions s values).trans hcard.symm)
  intro j hj i hi
  have hbelow := outranked_of_mem_sdiff hsubset hi hj
  rw [if_neg (by simp [h])] at hbelow
  exact Int64.le_iff_toInt_le.mp hbelow.getD_le

/-! ## Values in ascending order -/

theorem exists_sorted (values : List Int64) :
    ∃ sorted : List Int64, sorted.Perm values ∧ sorted.Pairwise (· ≤ ·) := by
  refine ⟨values.mergeSort fun a b => decide (a ≤ b), List.mergeSort_perm _ _, ?_⟩
  have htrans : ∀ a b c : Int64, decide (a ≤ b) = true → decide (b ≤ c) = true →
      decide (a ≤ c) = true := by
    intro a b c hab hbc
    exact decide_eq_true (Int64.le_trans (of_decide_eq_true hab) (of_decide_eq_true hbc))
  have htotal : ∀ a b : Int64, (decide (a ≤ b) || decide (b ≤ a)) = true := by
    intro a b
    simpa using Int64.le_total a b
  exact (List.pairwise_mergeSort htrans htotal values).imp of_decide_eq_true

/-- The values as they are ranked. There is only one ascending order of values. -/
theorem map_ranking {sorted : List Int64} (hperm : sorted.Perm values)
    (hsorted : sorted.Pairwise (· ≤ ·)) :
    (ranking values).map (fun i => values[i]?.getD 0) = sorted := by
  have hranked : ((ranking values).map fun i => values[i]?.getD 0).Pairwise (· ≤ ·) := by
    rw [List.pairwise_map]
    exact (ranking_sorted values).imp Below.getD_le
  have hvalues : ((ranking values).map fun i => values[i]?.getD 0).Perm values := by
    have hmap := (ranking_perm values).map fun i => values[i]?.getD 0
    rwa [map_getD_range] at hmap
  exact (hvalues.trans hperm.symm).eq_of_pairwise (fun _ _ _ _ => Int64.le_antisymm)
    hranked hsorted

theorem rest_map {α β : Type} (s : Selection) (f : α → β) (ranked : List α) :
    s.rest (ranked.map f) = (s.rest ranked).map f := by
  unfold rest
  split
  · rw [List.length_map, List.map_drop]
  · rw [List.length_map, List.map_take]

theorem kept_perm_rest {sorted : List Int64} (hperm : sorted.Perm values)
    (hsorted : sorted.Pairwise (· ≤ ·)) :
    (kept values (s.dropped values)).Perm (s.rest sorted) := by
  have hpositions : ((List.range values.length).filter (· ∉ s.dropped values)).Perm
      (s.rest (ranking values)) := by
    have hnodup : (s.rest (ranking values)).Nodup :=
      (List.nodup_append.mp ((s.cut_append_rest_perm _).nodup_iff.mpr (ranking_nodup values))).2.1
    apply (List.perm_ext_iff_of_nodup (List.nodup_range.filter _) hnodup).mpr
    intro i
    rw [mem_rest_ranking_iff, List.mem_filter, List.mem_range, decide_eq_true_eq]
  rw [kept_eq_map, ← map_ranking hperm hsorted, rest_map]
  exact hpositions.map _

theorem exactTotal_eq_sum_rest {sorted : List Int64} (hperm : sorted.Perm values)
    (hsorted : sorted.Pairwise (· ≤ ·)) :
    exactTotal values (s.dropped values) = ((s.rest sorted).map Int64.toInt).sum := by
  rw [← sum_kept]
  exact ((kept_perm_rest hperm hsorted).map Int64.toInt).sum_eq

theorem exactTotal_perm {others : List Int64} (h : others.Perm values) :
    exactTotal others (s.dropped others) = exactTotal values (s.dropped values) := by
  obtain ⟨sorted, hperm, hsorted⟩ := exists_sorted values
  rw [exactTotal_eq_sum_rest (hperm.trans h.symm) hsorted, exactTotal_eq_sum_rest hperm hsorted]

/-- At the same number, either end of the values has as many of them. -/
theorem exactTotal_le_of_ends {low high : Selection} (hmode : low.mode = high.mode)
    (hamount : low.amount = high.amount) (hhigh : high.keepsHigh = true) (values : List Int64) :
    exactTotal values (low.dropped values) ≤ exactTotal values (high.dropped values) := by
  have hcount : low.keepCount values.length = high.keepCount values.length := by
    unfold keepCount dropCount
    rw [hmode, hamount]
  apply (isGreatest_exactTotal hhigh values).2
  rw [← hcount]
  exact exactTotal_mem_choiceSums low values

/-- **Totals are optimal, whatever the order of the draws.** If the sum of what is kept fits into 64
bits, the total is the greatest, or the least, of the sums of as many values at any positions, and it
is the sum of one end of the values in ascending order. The same values in another order have the
same total. At the same number, what keeps the high values never comes to less than what keeps the
low ones. -/
theorem keptTotal_optimal {s : Selection} {values : List Int64}
    (hfits : FitsInt64 (exactTotal values (s.dropped values))) :
    (if s.keepsHigh then
      IsGreatest (choiceSums values (s.keepCount values.length))
        (keptTotal values (s.dropped values)).toInt
    else
      IsLeast (choiceSums values (s.keepCount values.length))
        (keptTotal values (s.dropped values)).toInt) ∧
    (∀ sorted : List Int64, sorted.Perm values → sorted.Pairwise (· ≤ ·) →
      (keptTotal values (s.dropped values)).toInt = ((s.rest sorted).map Int64.toInt).sum) ∧
    (∀ others : List Int64, others.Perm values →
      keptTotal others (s.dropped others) = keptTotal values (s.dropped values)) ∧
    ∀ low high : Selection, low.mode = high.mode → low.amount = high.amount →
      low.keepsHigh = false → high.keepsHigh = true →
      FitsInt64 (exactTotal values (low.dropped values)) →
      FitsInt64 (exactTotal values (high.dropped values)) →
      keptTotal values (low.dropped values) ≤ keptTotal values (high.dropped values) := by
  refine ⟨?_, ?_, ?_, ?_⟩
  · rw [toInt_keptTotal hfits]
    cases hend : s.keepsHigh with
    | true => exact isGreatest_exactTotal hend values
    | false => exact isLeast_exactTotal hend values
  · intro sorted hperm hsorted
    rw [toInt_keptTotal hfits, exactTotal_eq_sum_rest hperm hsorted]
  · intro others hperm
    rw [keptTotal_eq_ofInt, keptTotal_eq_ofInt, exactTotal_perm hperm]
  · intro low high hmode hamount _ hhigh hlowFits hhighFits
    rw [Int64.le_iff_toInt_le, toInt_keptTotal hlowFits, toInt_keptTotal hhighFits]
    exact exactTotal_le_of_ends hmode hamount hhigh values

/-- Three of `-1, 1, -1, 0` without the highest: a fudge roll with a tie. -/
theorem keptTotal_optimal_tie :
    IsLeast (choiceSums [-1, 1, -1, 0] 3) (-2) ∧
      keptTotal [0, -1, -1, 1] (dropped ⟨.drop, .high, .one⟩ [0, -1, -1, 1]) = -2 ∧
      keptTotal [-1, 1, -1, 0] (dropped ⟨.drop, .high, .one⟩ [-1, 1, -1, 0]) ≤
        keptTotal [-1, 1, -1, 0] (dropped ⟨.drop, .low, .one⟩ [-1, 1, -1, 0]) := by
  have hhigh : dropped ⟨.drop, .high, .one⟩ [-1, 1, -1, 0] = [1] := by cbv
  have hlow : dropped ⟨.drop, .low, .one⟩ [-1, 1, -1, 0] = [0] := by cbv
  have hfits : FitsInt64
      (exactTotal [-1, 1, -1, 0] (dropped ⟨.drop, .high, .one⟩ [-1, 1, -1, 0])) := by
    rw [hhigh]
    decide
  obtain ⟨hleast, -, hperm, hends⟩ := keptTotal_optimal hfits
  have htotal : keptTotal [-1, 1, -1, 0] (dropped ⟨.drop, .high, .one⟩ [-1, 1, -1, 0]) = -2 := by
    rw [hhigh]
    decide
  refine ⟨?_, ?_, ?_⟩
  · rw [htotal] at hleast
    exact hleast
  · rw [hperm [0, -1, -1, 1] (by decide), htotal]
  · refine hends _ _ rfl rfl rfl rfl hfits ?_
    rw [hlow]
    decide

end Selection

end DiceNotation
