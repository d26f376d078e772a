import DiceNotation.Dice.Selection

/-!
# Dropped positions

A ranking is a permutation of the positions, and a selection cuts a part off it. So the positions
that are dropped are positions of the group, each one at most once, and they are listed in ascending
order.
-/

namespace DiceNotation.Selection

theorem ranking_perm (values : List Int64) :
    (ranking values).Perm (List.range values.length) := by
  have hsorted := (List.mergeSort_perm values.zipIdx fun a b => decide (a.1 ≤ b.1)).map (·.2)
  have hpositions : values.zipIdx.map (·.2) = List.range values.length := by
    rw [List.range_eq_range']
    exact List.zipIdx_map_snd 0 values
  rw [hpositions] at hsorted
  exact hsorted

theorem ranking_nodup (values : List Int64) : (ranking values).Nodup :=
  (ranking_perm values).nodup_iff.mpr List.nodup_range

theorem cut_sublist (s : Selection) (ranked : List Nat) : (s.cut ranked).Sublist ranked := by
  unfold cut
  split
  · exact List.take_sublist _ _
  · exact List.drop_sublist _ _
  · exact List.drop_sublist _ _
  · exact List.take_sublist _ _

theorem dropped_perm (s : Selection) (values : List Int64) :
    (s.dropped values).Perm (s.cut (ranking values)) :=
  List.mergeSort_perm _ _

theorem lt_length_of_mem_dropped {s : Selection} {values : List Int64} {i : Nat}
    (h : i ∈ s.dropped values) : i < values.length := by
  have hcut : i ∈ s.cut (ranking values) := (dropped_perm s values).mem_iff.mp h
  have hranking : i ∈ ranking values := (cut_sublist s _).subset hcut
  exact List.mem_range.mp ((ranking_perm values).mem_iff.mp hranking)

theorem dropped_sorted (s : Selection) (values : List Int64) :
    (s.dropped values).Pairwise (· < ·) := by
  have hle : (s.dropped values).Pairwise (· ≤ ·) := by
    have htrans : ∀ i j k : Nat, decide (i ≤ j) = true → decide (j ≤ k) = true →
        decide (i ≤ k) = true := by
      intro i j k hij hjk
      simp only [decide_eq_true_eq] at *
      omega
    have htotal : ∀ i j : Nat, (decide (i ≤ j) || decide (j ≤ i)) = true := by
      intro i j
      simp only [Bool.or_eq_true, decide_eq_true_eq]
      omega
    have hsorted := List.pairwise_mergeSort htrans htotal (s.cut (ranking values))
    exact hsorted.imp fun h => by simpa using h
  have hnodup : (s.dropped values).Nodup := by
    rw [(dropped_perm s values).nodup_iff]
    exact (ranking_nodup values).sublist (cut_sublist s _)
  exact hle.imp₂ (fun _ _ h hne => Nat.lt_of_le_of_ne h hne) hnodup

end DiceNotation.Selection
