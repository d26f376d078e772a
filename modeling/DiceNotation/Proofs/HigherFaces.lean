import DiceNotation.Proofs.KeptTotal
import DiceNotation.Proofs.PlainThrows

/-!
# Higher faces

A higher face may move its die up the ranking, so that another die is dropped in its place, and two
totals cannot be compared die by die. But a total is the sum at some choice of positions; at these
positions the higher faces come to no less; and if the high values are kept, the total of the higher
faces is no less than that of any choice. Where the low values are kept, the choice is that of the
higher faces.
-/

namespace DiceNotation

open Play

section Totals

variable {values others : List Int64}

theorem getD_le_getD_of_forall₂ (h : List.Forall₂ (· ≤ ·) values others) (i : Nat) :
    values[i]?.getD 0 ≤ others[i]?.getD 0 := by
  induction h generalizing i with
  | nil => exact Int64.le_refl _
  | cons hle _ ih =>
      cases i with
      | zero => exact hle
      | succ i => exact ih i

theorem sumAt_mono (h : List.Forall₂ (· ≤ ·) values others) (positions : Finset Nat) :
    sumAt values positions ≤ sumAt others positions := by
  apply Finset.sum_le_sum
  intro i _
  exact Int64.le_iff_toInt_le.mp (getD_le_getD_of_forall₂ h i)

theorem Selection.exactTotal_mono (s : Selection) (h : List.Forall₂ (· ≤ ·) values others) :
    exactTotal values (s.dropped values) ≤ exactTotal others (s.dropped others) := by
  have hlength := h.length_eq
  cases hend : s.keepsHigh with
  | true =>
      -- the positions kept of the lower values are a choice of the higher ones
      obtain ⟨positions, hsubset, hcard, hsum⟩ := exactTotal_mem_choiceSums s values
      rw [hlength] at hsubset hcard
      calc exactTotal values (s.dropped values)
          = sumAt values positions := hsum.symm
        _ ≤ sumAt others positions := sumAt_mono h positions
        _ ≤ exactTotal others (s.dropped others) :=
            (isGreatest_exactTotal hend others).2 ⟨positions, hsubset, hcard, rfl⟩
  | false =>
      obtain ⟨positions, hsubset, hcard, hsum⟩ := exactTotal_mem_choiceSums s others
      rw [← hlength] at hsubset hcard
      calc exactTotal values (s.dropped values)
          ≤ sumAt values positions :=
            (isLeast_exactTotal hend values).2 ⟨positions, hsubset, hcard, rfl⟩
        _ ≤ sumAt others positions := sumAt_mono h positions
        _ = exactTotal others (s.dropped others) := hsum

theorem exactTotal_nil_mono (h : List.Forall₂ (· ≤ ·) values others) :
    exactTotal values [] ≤ exactTotal others [] := by
  unfold exactTotal
  rw [h.length_eq]
  exact sumAt_mono h _

theorem Dice.exactTotal_mono (dice : Dice) (h : List.Forall₂ (· ≤ ·) values others) :
    exactTotal values (dice.dropped values) ≤ exactTotal others (dice.dropped others) := by
  unfold dropped
  cases dice.selection? with
  | none => exact exactTotal_nil_mono h
  | some s => exact s.exactTotal_mono h

end Totals

namespace Throw

/-- Nothing leaves the 64 bits: neither the total of the throw nor, as fudge dice count two less
than their faces, any of its values. -/
structure Fits (t : Throw) : Prop where
  values : t.rule = .fudge → ∀ face ∈ t.faces, FitsInt64 (face.toInt - 2)
  total : FitsInt64 (exactTotal t.shown t.roll.dropped)

theorem toInt_sub_two {face : Int64} (h : FitsInt64 (face.toInt - 2)) :
    (face - 2).toInt = face.toInt - 2 := by
  have hface : face - 2 = Int64.ofInt (face.toInt - 2) := by
    rw [Int64.ofInt_sub, Int64.ofInt_toInt]
    rfl
  rw [hface, toInt_ofInt_of_fits h]

theorem forall₂_sub_two {faces others : List Int64} (h : List.Forall₂ (· ≤ ·) faces others)
    (hfaces : ∀ face ∈ faces, FitsInt64 (face.toInt - 2))
    (hothers : ∀ face ∈ others, FitsInt64 (face.toInt - 2)) :
    List.Forall₂ (· ≤ ·) (faces.map (· - 2)) (others.map (· - 2)) := by
  induction h with
  | nil => exact .nil
  | cons hle _ ih =>
      obtain ⟨hface, hfaces⟩ := List.forall_mem_cons.mp hfaces
      obtain ⟨hother, hothers⟩ := List.forall_mem_cons.mp hothers
      refine .cons ?_ (ih hfaces hothers)
      rw [Int64.le_iff_toInt_le] at hle
      rw [Int64.le_iff_toInt_le, toInt_sub_two hface, toInt_sub_two hother]
      omega

variable {lower higher : Throw}

theorem shown_mono (hrule : higher.rule = lower.rule)
    (hle : List.Forall₂ (· ≤ ·) lower.faces higher.faces) (hlower : lower.Fits)
    (hhigher : higher.Fits) : List.Forall₂ (· ≤ ·) lower.shown higher.shown := by
  unfold shown
  rw [hrule]
  cases hkind : lower.rule with
  | fudge => exact forall₂_sub_two hle (hlower.values hkind) (hhigher.values (hrule.trans hkind))
  | standard | duality | faction => exact hle

/-- The total of a throw is that of the values it shows. -/
theorem total_roll {t : Throw} (h : t.DrawnOnce) :
    t.roll.total = keptTotal t.shown t.roll.dropped := by
  obtain ⟨rule, literal, faces, hfaces⟩ := t
  rcases h with ⟨rfl, -⟩ | rfl | rfl
  · rfl
  · rfl
  · exact (keptTotal_nil faces).symm

theorem exactTotal_shown_mono (hrule : higher.rule = lower.rule)
    (hliteral : higher.literal = lower.literal)
    (hle : List.Forall₂ (· ≤ ·) lower.shown higher.shown) :
    exactTotal lower.shown lower.roll.dropped ≤ exactTotal higher.shown higher.roll.dropped := by
  obtain ⟨rule, literal, faces, hfaces⟩ := lower
  obtain ⟨_, _, better, hbetter⟩ := higher
  cases hrule
  cases hliteral
  cases rule with
  | standard | fudge => exact literal.dice.exactTotal_mono hle
  | duality | faction => exact exactTotal_nil_mono hle

/-- **A better die never lowers a total.** Two sources give faces for the same group, whose dice are
drawn once each, and no face of the second one is lower than that of the first. Then the rule rolls
the group with either source, and the second total is no less than the first, even if other dice are
dropped. -/
theorem total_le_of_faces_le {limits : Limits} (hrule : higher.rule = lower.rule)
    (hliteral : higher.literal = lower.literal) (honce : lower.DrawnOnce)
    (hcheck : lower.rule.check limits lower.literal.dice = .ok ())
    (hle : List.Forall₂ (· ≤ ·) lower.faces higher.faces) (hlower : lower.Fits)
    (hhigher : higher.Fits) {σ τ : Type} {low : Source σ} {high : Source τ} {s s' : σ} {t t' : τ}
    (hlow : lower.GivenBy low s s') (hhigh : higher.GivenBy high t t') :
    lower.rule.roll limits low lower.literal s = (.ok lower.roll, s') ∧
      higher.rule.roll limits high higher.literal t = (.ok higher.roll, t') ∧
      lower.roll.total ≤ higher.roll.total := by
  have honce' : higher.DrawnOnce := by
    unfold DrawnOnce
    rw [hrule, hliteral]
    exact honce
  have hcheck' : higher.rule.check limits higher.literal.dice = .ok () := by
    rw [hrule, hliteral]
    exact hcheck
  refine ⟨roll_of_givenBy honce hcheck hlow, roll_of_givenBy honce' hcheck' hhigh, ?_⟩
  rw [total_roll honce, total_roll honce', Int64.le_iff_toInt_le, toInt_keptTotal hlower.total,
    toInt_keptTotal hhigher.total]
  exact exactTotal_shown_mono hrule hliteral (shown_mono hrule hle hlower hhigher)

/-- `3dFdl1` with the faces 1, 2, 3 and with 3, 2, 3: the first die is dropped, and then the second
one. -/
theorem total_le_of_faces_le_fudge :
    let literal : Literal := ⟨"3dFdl1", ⟨⟨3, by decide, by decide⟩, ⟨3, by decide, by decide⟩,
      .fudge, false, some ⟨.drop, .low, .one⟩⟩⟩
    Rule.fudge.roll {} (Script.source []) literal ⟨[1, 2, 3], .error⟩ =
        (.ok ⟨1, [-1, 0, 1], [0], 0, "3dFdl1", [⟨0, .fudge⟩]⟩, ⟨[], .error⟩) ∧
      Rule.fudge.roll {} (Script.source []) literal ⟨[3, 2, 3], .error⟩ =
        (.ok ⟨2, [1, 0, 1], [1], 0, "3dFdl1", [⟨0, .fudge⟩]⟩, ⟨[], .error⟩) ∧
      (1 : Int64) ≤ 2 := by
  intro literal
  let lower : Throw := ⟨.fudge, literal, [1, 2, 3], by simp⟩
  let higher : Throw := ⟨.fudge, literal, [3, 2, 3], by simp⟩
  have hlower : lower.roll = ⟨1, [-1, 0, 1], [0], 0, "3dFdl1", [⟨0, .fudge⟩]⟩ := by cbv
  have hhigher : higher.roll = ⟨2, [1, 0, 1], [1], 0, "3dFdl1", [⟨0, .fudge⟩]⟩ := by cbv
  have hfits : lower.Fits := by
    refine ⟨fun _ => ?_, ?_⟩
    · simp only [lower, List.forall_mem_cons]
      exact ⟨by decide, by decide, by decide, by simp⟩
    · rw [hlower]
      decide
  have hfits' : higher.Fits := by
    refine ⟨fun _ => ?_, ?_⟩
    · simp only [higher, List.forall_mem_cons]
      exact ⟨by decide, by decide, by decide, by simp⟩
    · rw [hhigher]
      decide
  have hrolls := @total_le_of_faces_le lower higher {} rfl rfl (.inr (.inl rfl)) rfl (by decide)
    hfits hfits' Script Script (Script.source []) (Script.source []) ⟨[1, 2, 3], .error⟩
    ⟨[], .error⟩ ⟨[3, 2, 3], .error⟩ ⟨[], .error⟩ rfl rfl
  rwa [hlower, hhigher] at hrolls

end Throw

end DiceNotation
