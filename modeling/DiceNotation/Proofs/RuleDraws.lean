import DiceNotation.Proofs.Check
import DiceNotation.Proofs.Draws

/-!
# Draws of the rules

What each rule draws, and the roll it makes of the faces. A group that has passed its check is never
refused while it is rolled: an error can only be the source's.
-/

namespace DiceNotation

namespace Rule

open Play

variable {own : Error → Prop} {limits : Limits} {literal : Literal}

/-- The faces of one die that is drawn again after its highest face, at most `extra` times. -/
inductive IsChain (sides : Int64) : Nat → List Int64 → Prop
  | full (face : Int64) : IsChain sides 0 [face]
  | stop {extra : Nat} {face : Int64} (h : face ≠ sides) : IsChain sides (extra + 1) [face]
  | again {extra : Nat} {faces : List Int64} (h : IsChain sides extra faces) :
      IsChain sides (extra + 1) (sides :: faces)

theorem IsChain.ne_nil {sides : Int64} {extra : Nat} {faces : List Int64}
    (h : IsChain sides extra faces) : faces ≠ [] := by
  cases h <;> simp

theorem yields_chain (sides : Int64) (extra : Nat) :
    Yields (fun _ source => chain source sides extra) own (fun faces draws =>
      IsChain sides extra faces ∧ draws = faces.map (Draw.face sides)) := by
  induction extra with
  | zero =>
      refine ((yields_face sides).map fun face => [face]).mono (fun _ h => h) ?_
      rintro faces draws ⟨face, rfl, rfl⟩
      exact ⟨.full face, rfl⟩
  | succ extra ih =>
      have hnext : ∀ face, Yields
          (fun _ source => if face = sides then
            (do return face :: (← chain source sides extra)) else pure [face]) own
          (fun faces draws => IsChain sides (extra + 1) faces ∧
            Draw.face sides face :: draws = faces.map (Draw.face sides)) := by
        intro face
        by_cases hface : face = sides
        · simp only [if_pos hface]
          refine (ih.map (face :: ·)).mono (fun _ h => h) ?_
          rintro faces draws ⟨rest, ⟨hrest, rfl⟩, rfl⟩
          subst hface
          exact ⟨.again hrest, rfl⟩
        · simp only [if_neg hface]
          exact yields_pure ⟨.stop hface, rfl⟩
      refine ((yields_face sides).bind fun face _ _ => hnext face).mono (fun _ h => h) ?_
      rintro faces draws ⟨face, first, second, rfl, ⟨hchain, hdraws⟩, rfl⟩
      exact ⟨hchain, hdraws⟩

theorem yields_rollStandard :
    Yields (fun _ source => rollStandard limits source literal) own (fun roll draws =>
      ∃ chains : List (List Int64), chains.length = literal.dice.count.val ∧
        (∀ faces ∈ chains,
          IsChain literal.dice.sides.toInt64 (extraDraws limits literal.dice) faces) ∧
        draws = chains.flatten.map (Draw.face literal.dice.sides.toInt64) ∧
        roll = selected literal chains.flatten []) := by
  have hchains : Yields _ own _ := (yields_chain literal.dice.sides.toInt64
    (extraDraws limits literal.dice)).times literal.dice.count.val
  refine (hchains.map fun chains => selected literal chains.flatten []).mono
    (fun _ h => h) ?_
  rintro roll draws ⟨chains, hruns, rfl⟩
  refine ⟨chains, hruns.length_eq, hruns.forall_mem fun _ _ h => h.1, ?_, rfl⟩
  rw [hruns.draws_eq fun _ _ h => h.2, List.map_flatten, List.flatMap_def]

theorem yields_rollFudge :
    Yields (fun _ source => rollFudge source literal) own (fun roll draws =>
      ∃ faces : List Int64, faces.length = literal.dice.count.val ∧
        draws = faces.map (Draw.face 3) ∧
        roll = selected literal (faces.map (· - 2)) [⟨0, .fudge⟩]) := by
  refine ((yields_times_face literal.dice.count.val 3).map fun faces =>
    selected literal (faces.map (· - 2)) [⟨0, .fudge⟩]).mono (fun _ h => h) ?_
  rintro roll draws ⟨faces, ⟨hlength, rfl⟩, rfl⟩
  exact ⟨faces, hlength, rfl, rfl⟩

theorem yields_nonEmpty {α : Type} (cause : Error) {values : List α} (h : values ≠ []) :
    Yields (fun _ _ => Play.ofExcept (nonEmpty cause values)) own
      (fun result draws => result = values ∧ draws = []) := by
  have hok : nonEmpty cause values = .ok values := by
    simp [nonEmpty, h]
  rw [hok]
  exact yields_pure ⟨rfl, rfl⟩

theorem yields_dualityPair (sides : Int64) :
    Yields (fun _ source => dualityPair source sides) own (fun pair draws =>
      pair = DualityPair.of pair.primary pair.secondary ∧
        draws = pair.faces.map (Draw.face sides)) := by
  refine ((yields_face sides).bind fun primary _ _ =>
    (yields_face sides).map (DualityPair.of primary)).mono (fun _ h => h) ?_
  rintro pair draws ⟨primary, first, second, rfl, ⟨secondary, rfl, rfl⟩, rfl⟩
  exact ⟨rfl, rfl⟩

theorem yields_rollDuality :
    Yields (fun _ source => rollDuality source literal) own (fun roll draws =>
      ∃ pairs : List DualityPair, pairs.length = literal.dice.count.val ∧
        (∀ pair ∈ pairs, pair = DualityPair.of pair.primary pair.secondary) ∧
        draws = (pairs.flatMap DualityPair.faces).map (Draw.face literal.dice.sides.toInt64) ∧
        roll = { total := (pairs.flatMap DualityPair.faces).sum,
                 draws := pairs.flatMap DualityPair.faces, dropped := [], modifier := 0,
                 label := literal.text, details := [⟨0, .duality pairs⟩] }) := by
  have hpairs : Yields _ own _ :=
    (yields_dualityPair literal.dice.sides.toInt64).times literal.dice.count.val
  have hroll := hpairs.bind fun rolled draws hruns =>
    (yields_nonEmpty .noPairs (hruns.ne_nil literal.dice.count.pos)).map fun pairs =>
        (⟨(pairs.flatMap DualityPair.faces).sum, pairs.flatMap DualityPair.faces, [], 0,
          literal.text, [⟨0, .duality pairs⟩]⟩ : Roll)
  refine hroll.mono (fun _ h => h) ?_
  rintro roll draws ⟨rolled, first, second, hruns, ⟨pairs, ⟨rfl, rfl⟩, rfl⟩, rfl⟩
  refine ⟨pairs, hruns.length_eq, hruns.forall_mem fun _ _ h => h.1, ?_, rfl⟩
  rw [List.append_nil, hruns.draws_eq fun _ _ h => h.2, List.map_flatMap]

theorem yields_rollFaction :
    Yields (fun _ source => rollFaction source literal) own (fun roll draws =>
      ∃ base bonus : List Int64, base.length = literal.dice.count.val ∧
        bonus.length =
          base.countP (FactionSymbol.of (profile literal.dice.kind) · = .crit) ∧
        draws = (base ++ bonus).map (Draw.face literal.dice.sides.toInt64) ∧
        roll = { total := 0, draws := base ++ bonus, dropped := [], modifier := 0,
                 label := literal.text,
                 details := [⟨0, .faction ⟨profile literal.dice.kind,
                   (base ++ bonus).map (FactionSymbol.of (profile literal.dice.kind)),
                   literal.dice.count.val⟩⟩] }) := by
  have hbase : Yields _ own _ :=
    yields_times_face literal.dice.count.val literal.dice.sides.toInt64
  have hsymbols : ∀ base bonus : List Int64, base.length = literal.dice.count.val →
      (base ++ bonus).map (FactionSymbol.of (profile literal.dice.kind)) ≠ [] := by
    intro base bonus hlength hnil
    rw [(List.append_eq_nil_iff.mp (List.map_eq_nil_iff.mp hnil)).1] at hlength
    exact absurd hlength.symm (Nat.ne_of_gt literal.dice.count.pos)
  have hroll := hbase.bind fun base draws h =>
    (yields_times_face (base.countP (FactionSymbol.of (profile literal.dice.kind) · = .crit))
      literal.dice.sides.toInt64).bind fun bonus _ _ =>
        (yields_nonEmpty .noSymbols (hsymbols base bonus h.1)).map fun symbols =>
            (⟨0, base ++ bonus, [], 0, literal.text,
              [⟨0, .faction ⟨profile literal.dice.kind, symbols,
                literal.dice.count.val⟩⟩]⟩ : Roll)
  refine hroll.mono (fun _ h => h) ?_
  rintro roll draws ⟨base, first, second, ⟨hlength, rfl⟩,
    ⟨bonus, third, fourth, ⟨hbonus, rfl⟩, ⟨symbols, ⟨rfl, rfl⟩, rfl⟩, rfl⟩, rfl⟩
  exact ⟨base, bonus, hlength, hbonus, by simp, rfl⟩

end Rule

end DiceNotation
