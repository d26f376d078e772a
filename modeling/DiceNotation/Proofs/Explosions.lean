import DiceNotation.Proofs.KeptTotal
import DiceNotation.Proofs.Throws

/-!
# Exploding dice

A roll lists the faces of a group in one row and does not say which of them are of the same die. The
faces say it themselves: a die is drawn again as long as it shows its highest face and has draws
left, so no chain of draws goes on where another one with the same beginning ends. From the front of
the row the chains are cut off one by one, and there is only one way to do so. A selection does not
know about the chains: it ranks every face of the row by itself.
-/

namespace DiceNotation

namespace Rule

open Play

/-! ## Chains -/

section Chains

variable {sides : Int64} {extra : Nat}

/-- Where a chain ends can be seen from its faces, whatever follows them. -/
theorem IsChain.eq_of_append_eq {faces others rest rest' : List Int64}
    (h : IsChain sides extra faces) (h' : IsChain sides extra others)
    (heq : faces ++ rest = others ++ rest') : faces = others := by
  induction h generalizing others with
  | full face =>
      cases h' with
      | full other =>
          obtain ⟨rfl, -⟩ := List.cons.inj heq
          rfl
  | stop hne =>
      cases h' with
      | stop _ =>
          obtain ⟨rfl, -⟩ := List.cons.inj heq
          rfl
      | again _ => exact absurd (List.cons.inj heq).1 hne
  | again _ ih =>
      cases h' with
      | stop hne => exact absurd (List.cons.inj heq).1.symm hne
      | again hothers => rw [ih hothers (List.cons.inj heq).2]

/-- A row of faces is cut into chains in one way at most. -/
theorem eq_of_flatten_eq {chains others : List (List Int64)}
    (h : ∀ faces ∈ chains, IsChain sides extra faces)
    (h' : ∀ faces ∈ others, IsChain sides extra faces)
    (hflatten : chains.flatten = others.flatten) : chains = others := by
  induction chains generalizing others with
  | nil =>
      cases others with
      | nil => rfl
      | cons first others =>
          have hnil := List.flatten_eq_nil_iff.mp hflatten.symm first List.mem_cons_self
          exact absurd hnil (h' first List.mem_cons_self).ne_nil
  | cons chain chains ih =>
      obtain ⟨hchain, hchains⟩ := List.forall_mem_cons.mp h
      cases others with
      | nil =>
          have hnil := List.flatten_eq_nil_iff.mp hflatten chain List.mem_cons_self
          exact absurd hnil hchain.ne_nil
      | cons first others =>
          obtain ⟨hfirst, hothers⟩ := List.forall_mem_cons.mp h'
          rw [List.flatten_cons, List.flatten_cons] at hflatten
          obtain rfl := hchain.eq_of_append_eq hfirst hflatten
          rw [ih hchains hothers (List.append_cancel_left hflatten)]

theorem isChain_iff {faces : List Int64} :
    IsChain sides extra faces ↔ faces ≠ [] ∧ (∀ face ∈ faces.dropLast, face = sides) ∧
      faces.length ≤ extra + 1 ∧ (faces.getLast? = some sides → faces.length = extra + 1) := by
  constructor
  · intro h
    induction h with
    | full face => simp
    | stop hne => simp [hne]
    | @again extra faces hchain ih =>
        obtain ⟨hne, hhighest, hle, hlast⟩ := ih
        refine ⟨List.cons_ne_nil _ _, ?_, Nat.succ_le_succ hle, ?_⟩
        · rw [List.dropLast_cons_of_ne_nil hne]
          exact List.forall_mem_cons.mpr ⟨rfl, hhighest⟩
        · intro h
          rw [List.getLast?_cons_of_ne_nil hne] at h
          exact congrArg (· + 1) (hlast h)
  · rintro ⟨hne, hhighest, hle, hlast⟩
    induction faces generalizing extra with
    | nil => exact absurd rfl hne
    | cons face faces ih =>
        cases faces with
        | nil =>
            cases extra with
            | zero => exact .full face
            | succ extra =>
                refine .stop fun hface => ?_
                have hlength := hlast (congrArg some hface)
                simp at hlength
        | cons next faces =>
            obtain ⟨rfl, hhighest⟩ := List.forall_mem_cons.mp hhighest
            cases extra with
            | zero => simp at hle
            | succ extra =>
                refine .again (ih (List.cons_ne_nil _ _) hhighest (Nat.le_of_succ_le_succ hle) ?_)
                intro h
                exact Nat.succ.inj (hlast h)

end Chains

/-- The faces that one die of the group can show. An explosion depth of zero counts as one. -/
structure DieFaces (limits : Limits) (dice : Dice) (faces : List Int64) : Prop where
  ne_nil : faces ≠ []
  once : dice.explode = false → faces.length = 1
  highest : dice.explode = true → ∀ face ∈ faces.dropLast, face = dice.sides.toInt64
  length_le : dice.explode = true → faces.length ≤ max 1 limits.explosionDepth
  last : dice.explode = true → faces.getLast? = some dice.sides.toInt64 →
    faces.length = max 1 limits.explosionDepth

theorem extraDraws_add_one {limits : Limits} {dice : Dice} (h : dice.explode = true) :
    extraDraws limits dice + 1 = max 1 limits.explosionDepth := by
  rw [extraDraws, if_pos h]
  omega

theorem dieFaces_iff_isChain {limits : Limits} {dice : Dice} {faces : List Int64} :
    DieFaces limits dice faces ↔
      IsChain dice.sides.toInt64 (extraDraws limits dice) faces := by
  rw [isChain_iff]
  cases hexplode : dice.explode with
  | true =>
      rw [extraDraws_add_one hexplode]
      constructor
      · intro h
        exact ⟨h.ne_nil, h.highest hexplode, h.length_le hexplode, h.last hexplode⟩
      · rintro ⟨hne, hhighest, hle, hlast⟩
        exact ⟨hne, by simp [hexplode], fun _ => hhighest, fun _ => hle, fun _ => hlast⟩
  | false =>
      have hextra : extraDraws limits dice = 0 := by simp [extraDraws, hexplode]
      rw [hextra]
      constructor
      · intro h
        obtain ⟨face, rfl⟩ := List.length_eq_one_iff.mp (h.once hexplode)
        simp
      · rintro ⟨hne, -, hle, -⟩
        have hpos := List.length_pos_of_ne_nil hne
        exact ⟨hne, fun _ => by omega, by simp [hexplode], by simp [hexplode], by simp [hexplode]⟩

/-! ## Rolls of the standard rule -/

/-- **Explosion chains.** A roll of the standard rule shows as many chains as the group has dice,
each with the faces of one die, and they cannot be cut in any other way. Every draw asks for a face
of these dice. The selection drops faces from the row of all chains, and the total is the sum of the
others in 64 bits. -/
theorem exists_chains_of_roll {limits : Limits} {literal : Literal} {σ : Type} {source : Source σ}
    {s s' : σ} {roll : Roll} (h : standard.roll limits source literal s = (.ok roll, s')) :
    (∃ chains : List (List Int64), chains.length = literal.dice.count.val ∧
      (∀ faces ∈ chains, DieFaces limits literal.dice faces) ∧ chains.flatten = roll.draws ∧
      ∀ others : List (List Int64), (∀ faces ∈ others, DieFaces limits literal.dice faces) →
        others.flatten = roll.draws → others = chains) ∧
    (∀ record : List Draw, standard.roll limits source.recorded literal (s, record) =
      (.ok roll, s',
        (roll.draws.map (Draw.face literal.dice.sides.toInt64)).reverse ++ record)) ∧
    (literal.dice.selection? = none → roll.dropped = []) ∧
    (∀ selection, literal.dice.selection? = some selection →
      selection.Drops roll.draws roll.dropped) ∧
    roll.total = Int64.ofInt (exactTotal roll.draws roll.dropped) := by
  refine ⟨?_, ?_, ?_⟩
  · obtain ⟨⟨_, literal, faces, _⟩, rfl, rfl, ⟨chains, hlength, hchains, hflatten⟩, rfl, -⟩ :=
      exists_throw_of_roll h []
    refine ⟨chains, hlength, fun chain hchain => dieFaces_iff_isChain.mpr (hchains chain hchain),
      hflatten.symm, ?_⟩
    intro others hothers hsame
    have hcut := fun chain hchain => dieFaces_iff_isChain.mp (hothers chain hchain)
    exact eq_of_flatten_eq hcut hchains (hsame.trans hflatten)
  · intro record
    obtain ⟨⟨_, literal, faces, _⟩, rfl, rfl, -, rfl, hrun⟩ := exists_throw_of_roll h record
    exact hrun
  · obtain ⟨⟨_, literal, faces, _⟩, rfl, rfl, -, rfl, -⟩ := exists_throw_of_roll h []
    refine ⟨?_, ?_, keptTotal_eq_ofInt _ _⟩
    · intro hnone
      change literal.dice.dropped faces = []
      rw [Dice.dropped, hnone]
    · intro selection hsome
      change selection.Drops faces (literal.dice.dropped faces)
      rw [Dice.dropped, hsome]
      exact selection.drops_dropped faces

/-- `3d6!kh1`: the first die explodes, and of its two faces only one is kept. -/
theorem exists_chains_of_roll_keep :
    let dice : Dice := ⟨⟨3, by decide, by decide⟩, ⟨6, by decide, by decide⟩, .standard, true,
      some ⟨.keep, .high, .one⟩⟩
    standard.roll {} (Script.source []) ⟨"3d6!kh1", dice⟩ ⟨[6, 2, 5, 4], .error⟩ =
        (.ok ⟨6, [6, 2, 5, 4], [1, 2, 3], 0, "3d6!kh1", []⟩, ⟨[], .error⟩) ∧
      (∀ chains : List (List Int64), (∀ faces ∈ chains, DieFaces {} dice faces) →
        chains.flatten = [6, 2, 5, 4] → chains = [[6, 2], [5], [4]]) ∧
      Selection.Drops ⟨.keep, .high, .one⟩ [6, 2, 5, 4] [1, 2, 3] := by
  intro dice
  have hroll : standard.roll {} (Script.source []) ⟨"3d6!kh1", dice⟩ ⟨[6, 2, 5, 4], .error⟩ =
      (.ok ⟨6, [6, 2, 5, 4], [1, 2, 3], 0, "3d6!kh1", []⟩, ⟨[], .error⟩) := by cbv
  obtain ⟨⟨chains, -, -, -, hunique⟩, -, -, hdrops, -⟩ := exists_chains_of_roll hroll
  have hchains : ∀ faces ∈ [[6, 2], [5], [4]], DieFaces {} dice faces := by
    have hexplodes : IsChain 6 49 [6, 2] := .again (.stop (by decide))
    have hfive : IsChain 6 49 [5] := .stop (by decide)
    have hfour : IsChain 6 49 [4] := .stop (by decide)
    intro faces hfaces
    refine dieFaces_iff_isChain.mpr ?_
    simp only [List.mem_cons, List.not_mem_nil, or_false] at hfaces
    rcases hfaces with rfl | rfl | rfl
    · exact hexplodes
    · exact hfive
    · exact hfour
  refine ⟨hroll, ?_, hdrops _ rfl⟩
  intro others hothers hflatten
  rw [hunique others hothers hflatten, hunique _ hchains rfl]

end Rule

end DiceNotation
