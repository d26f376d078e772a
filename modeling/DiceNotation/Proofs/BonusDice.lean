import DiceNotation.Proofs.Throws

/-!
# Bonus dice

A faction group is drawn in two runs: the dice that are asked for, and then one bonus die for each
crit among them. The length of the second run is settled before it starts, so a crit on a bonus die
is read like any other symbol and adds nothing. The roll shows the faces of both runs in one row; the
reading says where the second one begins.
-/

namespace DiceNotation

namespace FactionReading

/-- The faces of a faction group are those of its dice and of one bonus die for each crit among
these, and the reading says what the table has for each face. -/
structure Reads (reading : FactionReading) (dice : Dice) (faces : List Int64) : Prop where
  profile_eq : reading.profile = Rule.profile dice.kind
  base_eq : reading.base = dice.count.val
  length_faces : faces.length = dice.count.val +
    (faces.take dice.count.val).countP (FactionSymbol.of reading.profile · = .crit)
  symbols_eq : reading.symbols = faces.map (FactionSymbol.of reading.profile)
  bonus_eq : reading.bonus = (faces.drop dice.count.val).map (FactionSymbol.of reading.profile)
  successes_eq : reading.successes =
    faces.countP (FactionSymbol.of reading.profile · ≠ .blank)
  successes_le : reading.successes ≤ 2 * dice.count.val

/-- There are no more crits than dice, so at most half of the faces are bonus dice. -/
theorem length_le_of_bonus {count : Nat} {faces : List Int64} {isCrit : Int64 → Bool}
    (h : faces.length = count + (faces.take count).countP isCrit) : faces.length ≤ 2 * count := by
  have hcrits : (faces.take count).countP isCrit ≤ (faces.take count).length :=
    List.countP_le_length
  have htaken : (faces.take count).length ≤ count := List.length_take_le _ _
  omega

end FactionReading

namespace Throw

/-- What a faction group says beside its faces. -/
def factionReading (t : Throw) : FactionReading :=
  ⟨Rule.profile t.literal.dice.kind, t.faces.map t.symbol, t.literal.dice.count.val⟩

theorem roll_of_faction {t : Throw} (h : t.rule = .faction) :
    t.roll = { total := 0, draws := t.faces, dropped := [], modifier := 0,
               label := t.literal.text, details := [⟨0, .faction t.factionReading⟩] } := by
  unfold roll
  rw [h]
  rfl

theorem reads_factionReading {t : Throw} {limits : Limits} (hrule : t.rule = .faction)
    (hcomplete : t.Complete limits) : t.factionReading.Reads t.literal.dice t.faces := by
  simp only [Complete, hrule] at hcomplete
  have hsuccesses : t.factionReading.successes = t.faces.countP (t.symbol · ≠ .blank) := by
    rw [FactionReading.successes, factionReading, List.countP_map]
    refine List.countP_congr fun face _ => ?_
    simp [FactionSymbol.isSuccess]
  exact {
    profile_eq := rfl
    base_eq := rfl
    length_faces := hcomplete
    symbols_eq := rfl
    bonus_eq := List.map_drop.symm
    successes_eq := hsuccesses
    successes_le := by
      rw [hsuccesses]
      exact Nat.le_trans List.countP_le_length (FactionReading.length_le_of_bonus hcomplete) }

end Throw

namespace Rule

/-- **One bonus die for each crit.** Whatever the source answers, a faction group that is rolled has
drawn its own dice and then as many more as there are crits among these, each with the sides of the
group. All faces are shown, none is dropped and none counts for the total; the reading has the symbol
of each of them in the same order. -/
theorem exists_reading_of_roll {limits : Limits} {literal : Literal} {σ : Type} {source : Source σ}
    {s s' : σ} {roll : Roll} (h : faction.roll limits source literal s = (.ok roll, s')) :
    (∃ reading : FactionReading, roll.details = [⟨0, .faction reading⟩] ∧
      reading.Reads literal.dice roll.draws) ∧
    roll.total = 0 ∧ roll.dropped = [] ∧
    ∀ record : List Draw, faction.roll limits source.recorded literal (s, record) =
      (.ok roll, s',
        (roll.draws.map (Draw.face literal.dice.sides.toInt64)).reverse ++ record) := by
  have hrecord : ∀ record : List Draw, faction.roll limits source.recorded literal (s, record) =
      (.ok roll, s',
        (roll.draws.map (Draw.face literal.dice.sides.toInt64)).reverse ++ record) := by
    intro record
    obtain ⟨⟨_, literal, faces, _⟩, rfl, rfl, -, rfl, hrun⟩ := exists_throw_of_roll h record
    exact hrun
  obtain ⟨t, hrule, rfl, hcomplete, rfl, -⟩ := exists_throw_of_roll h []
  refine ⟨⟨t.factionReading, ?_, ?_⟩, ?_, ?_, hrecord⟩
  · rw [Throw.roll_of_faction hrule]
  · rw [Throw.roll_of_faction hrule]
    exact Throw.reads_factionReading hrule hcomplete
  · rw [Throw.roll_of_faction hrule]
  · rw [Throw.roll_of_faction hrule]

/-- `3dMcpDef!kh1` where the source answers 8, 6, 8 and then 8, 1: there are two bonus dice, and the
crit on the first of them draws no further one. The suffixes change nothing. -/
theorem exists_reading_of_roll_crits :
    let literal : Literal := ⟨"3dMcpDef!kh1", ⟨⟨3, by decide, by decide⟩, ⟨8, by decide, by decide⟩,
      .factionDefense, true, some ⟨.keep, .high, .one⟩⟩⟩
    let reading : FactionReading := ⟨.defense, [.crit, .block, .crit, .crit, .blank], 3⟩
    faction.roll {} (Script.source []) literal ⟨[8, 6, 8, 8, 1, 4], .error⟩ =
        (.ok ⟨0, [8, 6, 8, 8, 1], [], 0, "3dMcpDef!kh1", [⟨0, .faction reading⟩]⟩,
          ⟨[4], .error⟩) ∧
      reading.Reads literal.dice [8, 6, 8, 8, 1] ∧ reading.bonus = [.crit, .blank] ∧
      reading.successes = 4 := by
  intro literal reading
  have hroll : faction.roll {} (Script.source []) literal ⟨[8, 6, 8, 8, 1, 4], .error⟩ =
      (.ok ⟨0, [8, 6, 8, 8, 1], [], 0, "3dMcpDef!kh1", [⟨0, .faction reading⟩]⟩,
        ⟨[4], .error⟩) := by rfl
  obtain ⟨⟨found, hdetails, hreads⟩, -, -, -⟩ := exists_reading_of_roll hroll
  obtain rfl : reading = found := by
    injection hdetails with hdetail
    injection hdetail with _ hreading
    injection hreading
  exact ⟨hroll, hreads, hreads.bonus_eq, hreads.successes_eq⟩

end Rule

end DiceNotation
