import DiceNotation.Proofs.Throws

/-!
# Answers of a source

The record of a run holds answers of the source and nothing else. So the faces of a throw are faces
that the source gives, and a rule that fails behind its check fails with an error that the source
gives.
-/

namespace DiceNotation

namespace Play

variable {σ α β : Type} {holds : σ → Prop}

/-- What holds of the state before the computation holds of the one after it, also if it fails. -/
def Preserves (holds : σ → Prop) (play : Play σ α) : Prop :=
  ∀ state, holds state → holds (play state).2

theorem preserves_ofExcept (result : Except Error α) : Preserves holds (ofExcept result) :=
  fun _ h => h

theorem preserves_pure (a : α) : Preserves holds (pure a : Play σ α) :=
  preserves_ofExcept (.ok a)

theorem Preserves.bind {play : Play σ α} {next : α → Play σ β} (hplay : Preserves holds play)
    (hnext : ∀ a, Preserves holds (next a)) : Preserves holds (play >>= next) := by
  intro state h
  have hafter := hplay state h
  rw [bind_apply]
  rcases hrun : play state with ⟨result, after⟩
  rw [hrun] at hafter
  cases result with
  | error e => exact hafter
  | ok a => exact hnext a after hafter

theorem Preserves.times {play : Play σ α} (h : Preserves holds play) (n : Nat) :
    Preserves holds (times n play) := by
  induction n with
  | zero => exact preserves_pure []
  | succ n ih => exact h.bind fun first => ih.bind fun others => preserves_pure (first :: others)

end Play

namespace Rule

open Play

variable {σ : Type} {holds : σ → Prop} {source : Source σ}

theorem preserves_chain (hface : ∀ sides, Preserves holds (source.face sides)) (sides : Int64)
    (extra : Nat) : Preserves holds (chain source sides extra) := by
  induction extra with
  | zero => exact (hface sides).bind fun face => preserves_pure [face]
  | succ extra ih =>
      apply (hface sides).bind
      intro face
      by_cases hagain : face = sides
      · rw [if_pos hagain]
        exact ih.bind fun faces => preserves_pure (face :: faces)
      · rw [if_neg hagain]
        exact preserves_pure [face]

/-- What every draw preserves, the rule preserves. -/
theorem preserves_roll (hface : ∀ sides, Preserves holds (source.face sides)) (rule : Rule)
    (limits : Limits) (literal : Literal) : Preserves holds (rule.roll limits source literal) := by
  unfold Rule.roll
  refine (preserves_ofExcept (rule.check limits literal.dice)).bind fun _ => ?_
  cases rule with
  | standard =>
      have hchain := preserves_chain hface literal.dice.sides.toInt64
        (extraDraws limits literal.dice)
      exact (hchain.times literal.dice.count.val).bind fun chains => preserves_pure _
  | fudge =>
      exact ((hface 3).times literal.dice.count.val).bind fun faces => preserves_pure _
  | duality =>
      have hpair : Preserves holds (dualityPair source literal.dice.sides.toInt64) :=
        (hface _).bind fun primary => (hface _).bind fun secondary => preserves_pure _
      exact (hpair.times literal.dice.count.val).bind fun rolled =>
        (preserves_ofExcept _).bind fun pairs => preserves_pure _
  | faction =>
      have hfaces := fun n => (hface literal.dice.sides.toInt64).times n
      exact (hfaces _).bind fun base => (hfaces _).bind fun bonus =>
        (preserves_ofExcept _).bind fun symbols => preserves_pure _

end Rule

namespace Source

variable {σ : Type}

/-- The source gives this answer in one of its states. -/
def Answers (source : Source σ) (draw : Draw) : Prop :=
  ∃ state, (source.draw draw.sides state).1 = draw.answer

theorem preserves_recorded (source : Source σ) (sides : Int64) :
    Play.Preserves (fun run : σ × List Draw => ∀ d ∈ run.2, source.Answers d)
      (source.recorded.face sides) := by
  rintro ⟨state, record⟩ h
  exact List.forall_mem_cons.mpr ⟨⟨state, rfl⟩, h⟩

end Source

/-- **A rule rolls what the source gives, or fails with what the source gives.** Behind the check of
the rule there is no other error. -/
theorem Rule.exists_throw_or_failure {rule : Rule} {limits : Limits} {literal : Literal}
    (hcheck : rule.check limits literal.dice = .ok ()) {σ : Type} (source : Source σ) (s : σ) :
    (∃ (t : Throw) (s' : σ), t.rule = rule ∧ t.literal = literal ∧ t.Complete limits ∧
      (∀ face ∈ t.faces, source.Answers (Draw.face t.sides face)) ∧
      rule.roll limits source literal s = (.ok t.roll, s')) ∨
    ∃ (e : Error) (s' : σ) (sides : Int64), source.Answers ⟨sides, .error e⟩ ∧
      rule.roll limits source literal s = (.error e, s') := by
  have hyields := @Rule.yields_roll (fun _ => False) _ _ _ hcheck
  obtain ⟨draws, hrun, hends⟩ := hyields σ source s []
  dsimp only at hrun hends
  have hanswers : ∀ d ∈ draws, source.Answers d := by
    have hrecord := preserves_roll source.preserves_recorded rule limits literal (s, []) (by simp)
    dsimp only at hrecord
    rw [hrun] at hrecord
    simpa using hrecord
  rcases hplain : rule.roll limits source literal s with ⟨result, s'⟩
  rw [hplain] at hends
  cases hends with
  | value hall h =>
      obtain ⟨t, hrule, hliteral, hcomplete, rfl, rfl⟩ := h
      left
      refine ⟨t, s', hrule, hliteral, hcomplete, ?_, rfl⟩
      exact fun face hface => hanswers _ (List.mem_map_of_mem hface)
  | refused hall h => exact h.elim
  | @failed sides e before hall =>
      right
      exact ⟨e, s', sides, hanswers _ (by simp), rfl⟩

end DiceNotation
