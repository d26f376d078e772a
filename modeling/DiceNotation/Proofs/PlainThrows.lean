import DiceNotation.Proofs.Throws

/-!
# Groups whose dice are drawn once

Standard dice that do not explode, fudge dice and duality dice are drawn as often as the group says,
whatever the faces are. Rolling such a group is to draw all its faces in a row and to make one roll
of them, so each of the three rules has an equation of that form. With them the roll of a group is
read off the faces that a source gives.
-/

namespace DiceNotation

namespace Play

variable {σ α β : Type}

theorem bind_of_ok {play : Play σ α} {next : α → Play σ β} {a : α} {s s' : σ}
    (h : play s = (.ok a, s')) : (play >>= next) s = next a s' := by
  rw [bind_apply, h]

/-- What comes after `n` runs only matters for lists of `n` values. -/
theorem times_bind_congr {n : Nat} {play : Play σ α} {next next' : List α → Play σ β}
    (h : ∀ values, values.length = n → next values = next' values) :
    (times n play >>= next) = (times n play >>= next') := by
  induction n generalizing next next' with
  | zero =>
      simp only [times, pure_bind]
      exact h [] rfl
  | succ n ih =>
      simp only [times, bind_assoc, pure_bind]
      congr 1
      funext first
      apply ih
      intro others hlength
      exact h (first :: others) (congrArg (· + 1) hlength)

theorem times_map (n : Nat) (play : Play σ α) (f : α → β) :
    times n (play >>= fun value => pure (f value)) =
      (times n play >>= fun values => pure (values.map f)) := by
  induction n with
  | zero => simp only [times, pure_bind, List.map_nil]
  | succ n ih => simp only [times, ih, bind_assoc, pure_bind, List.map_cons]

end Play

open Play

variable {σ : Type}

theorem DualityPair.flatMap_faces_ofFaces : ∀ {n : Nat} {faces : List Int64},
    faces.length = 2 * n → (ofFaces faces).flatMap DualityPair.faces = faces
  | 0, faces, h => by
      rw [List.length_eq_zero_iff.mp h]
      rfl
  | _ + 1, [], h => by cases h
  | _ + 1, [_], h => by simp at h; omega
  | n + 1, primary :: secondary :: faces, h => by
      have hlength : faces.length = 2 * n := by
        simp only [List.length_cons] at h
        omega
      simp only [ofFaces, List.flatMap_cons, flatMap_faces_ofFaces hlength]
      rfl

namespace Rule

theorem times_dualityPair (n : Nat) (source : Source σ) (sides : Int64) :
    times n (dualityPair source sides) =
      (times (2 * n) (source.face sides) >>= fun faces => pure (DualityPair.ofFaces faces)) := by
  induction n with
  | zero => rfl
  | succ n ih =>
      have htwo : 2 * (n + 1) = 2 * n + 1 + 1 := by omega
      simp only [htwo, times, ih]
      simp only [dualityPair, bind_assoc, pure_bind]
      rfl

theorem rollStandard_of_not_explode {literal : Literal} (h : literal.dice.explode = false)
    (limits : Limits) (source : Source σ) :
    rollStandard limits source literal =
      (times literal.dice.count.val (source.face literal.dice.sides.toInt64) >>= fun faces =>
        pure (selected literal faces [])) := by
  have hextra : extraDraws limits literal.dice = 0 := by simp [extraDraws, h]
  simp only [rollStandard, hextra, chain]
  rw [times_map, bind_assoc]
  simp only [pure_bind, ← List.flatMap_def, List.flatMap_singleton']

theorem rollDuality_eq (source : Source σ) (literal : Literal) :
    rollDuality source literal =
      (times (2 * literal.dice.count.val) (source.face literal.dice.sides.toInt64) >>= fun faces =>
        pure { total := faces.sum, draws := faces, dropped := [], modifier := 0,
               label := literal.text,
               details := [⟨0, .duality (DualityPair.ofFaces faces)⟩] }) := by
  simp only [rollDuality, times_dualityPair, bind_assoc, pure_bind]
  apply times_bind_congr
  intro faces hlength
  -- no count is zero, so there is a first pair
  have hfaces := DualityPair.flatMap_faces_ofFaces hlength
  have hpairs : DualityPair.ofFaces faces ≠ [] := by
    intro hnil
    rw [hnil, List.flatMap_nil] at hfaces
    rw [← hfaces] at hlength
    have hpos := literal.dice.count.pos
    simp at hlength
    omega
  have hok : nonEmpty .noPairs (DualityPair.ofFaces faces) = .ok (DualityPair.ofFaces faces) := by
    simp [nonEmpty, hpairs]
  rw [hok, ofExcept_ok, pure_bind, hfaces]

end Rule

namespace Throw

/-- The dice of the group are drawn once each. -/
def DrawnOnce (t : Throw) : Prop :=
  t.rule = .standard ∧ t.literal.dice.explode = false ∨ t.rule = .fudge ∨ t.rule = .duality

/-- How many dice the group has. A pair is two dice. -/
def diceCount (t : Throw) : Nat :=
  match t.rule with
  | .duality => 2 * t.literal.dice.count.val
  | _ => t.literal.dice.count.val

/-- Asked for all dice of the group in a row, the source gives the faces of the throw. -/
def GivenBy (t : Throw) (source : Source σ) (s s' : σ) : Prop :=
  times t.diceCount (source.face t.sides) s = (.ok t.faces, s')

theorem roll_of_givenBy {t : Throw} {limits : Limits} {source : Source σ} {s s' : σ}
    (honce : t.DrawnOnce) (hcheck : t.rule.check limits t.literal.dice = .ok ())
    (h : t.GivenBy source s s') :
    t.rule.roll limits source t.literal s = (.ok t.roll, s') := by
  obtain ⟨rule, literal, faces, hfaces⟩ := t
  simp only [Rule.roll, hcheck, ofExcept_ok, pure_bind]
  rcases honce with ⟨rfl, hplain⟩ | rfl | rfl
  · change Rule.rollStandard limits source literal s = _
    rw [Rule.rollStandard_of_not_explode hplain]
    exact bind_of_ok h
  · change Rule.rollFudge source literal s = _
    exact bind_of_ok h
  · change Rule.rollDuality source literal s = _
    rw [Rule.rollDuality_eq]
    exact bind_of_ok h

end Throw

end DiceNotation
