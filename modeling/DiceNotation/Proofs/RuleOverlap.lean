import DiceNotation.Proofs.HigherFaces

/-!
# Where two rules overlap

Fudge dice are three-sided dice that count two less, and a pair of duality dice is two dice of the
same sides. So the rules of either kind can be set against the standard rule: on any source, also on
one that fails half-way, both rules make the same calls, and what they make of the faces differs only
by the two that each fudge die counts less. A selection does not see that difference, since it only
asks which of two values is the smaller one.
-/

namespace DiceNotation

namespace Play

variable {α β γ : Type} {R : α → β → Prop}

/-- Both have the same error, or both have a value and the values are related. -/
inductive EndAlike (R : α → β → Prop) : Except Error α → Except Error β → Prop
  | value {a : α} {b : β} (h : R a b) : EndAlike R (.ok a) (.ok b)
  | error (e : Error) : EndAlike R (.error e) (.error e)

/-- Whatever the source, the two computations make the same calls with the same answers, leave it in
the same state and end alike. -/
structure InStep (first : Uniform α) (second : Uniform β) (R : α → β → Prop) : Prop where
  calls : ∀ (σ : Type) (source : Source σ) (s : σ) (record : List Draw),
    (first _ source.recorded (s, record)).2 = (second _ source.recorded (s, record)).2
  ends : ∀ (σ : Type) (source : Source σ) (s : σ),
    EndAlike R (first _ source s).1 (second _ source s).1

/-- What is made of the values of a computation does not change its calls. -/
theorem inStep_of_common (common : Uniform γ) {f : γ → α} {g : γ → β}
    (h : ∀ c, R (f c) (g c)) :
    InStep (fun _ source => common _ source >>= fun c => pure (f c))
      (fun _ source => common _ source >>= fun c => pure (g c)) R where
  calls := by
    intro σ source s record
    simp only [bind_apply]
    rcases common _ source.recorded (s, record) with ⟨_ | _, _⟩ <;> rfl
  ends := by
    intro σ source s
    simp only [bind_apply]
    rcases common _ source s with ⟨e | c, _⟩
    · exact .error e
    · exact .value (h c)

end Play

/-! ## Selections of other values in the same order -/

namespace Selection

variable {values : List Int64} {f : Int64 → Int64}

theorem Below.map (hf : ∀ a ∈ values, ∀ b ∈ values, a < b → f a < f b) {i j : Nat}
    (h : Below values i j) : Below (values.map f) i j := by
  obtain ⟨a, b, ha, hb, hab⟩ := h
  refine ⟨f a, f b, by simp [ha], by simp [hb], ?_⟩
  rcases hab with hlt | ⟨rfl, hij⟩
  · exact .inl (hf a (List.mem_of_getElem? ha) b (List.mem_of_getElem? hb) hlt)
  · exact .inr ⟨rfl, hij⟩

/-- Other values in the same order have the same ones dropped. -/
theorem dropped_map (s : Selection) (hf : ∀ a ∈ values, ∀ b ∈ values, a < b → f a < f b) :
    s.dropped (values.map f) = s.dropped values := by
  have h := drops_dropped s values
  have hmap : s.Drops (values.map f) (s.dropped values) := {
    sorted := h.sorted
    lt_length := by simpa using h.lt_length
    length_eq := by simpa using h.length_eq
    outranked := by
      intro i hi j hj hkept
      have hbelow := h.outranked i hi j (by simpa using hj) hkept
      split
      · rename_i hend
        rw [if_pos hend] at hbelow
        exact hbelow.map hf
      · rename_i hend
        rw [if_neg hend] at hbelow
        exact hbelow.map hf }
  exact (drops_dropped s (values.map f)).unique hmap

end Selection

theorem Dice.dropped_map {dice other : Dice} (h : dice.selection? = other.selection?)
    {values : List Int64} {f : Int64 → Int64}
    (hf : ∀ a ∈ values, ∀ b ∈ values, a < b → f a < f b) :
    dice.dropped (values.map f) = other.dropped values := by
  unfold dropped
  rw [h]
  cases other.selection? with
  | none => rfl
  | some s => exact s.dropped_map hf

/-! ## Values that are lowered by two -/

theorem kept_map (f : Int64 → Int64) (values : List Int64) (dropped : List Nat) :
    kept (values.map f) dropped = (kept values dropped).map f := by
  simp only [kept, List.length_map, List.zip_map_left, List.filter_map, List.map_map]
  rfl

theorem mem_of_mem_kept {values : List Int64} {dropped : List Nat} {value : Int64}
    (h : value ∈ kept values dropped) : value ∈ values := by
  obtain ⟨⟨_, flag⟩, hmem, rfl⟩ := List.mem_map.mp h
  exact (List.of_mem_zip (List.mem_filter.mp hmem).1).1

theorem sum_map_sub_two {values : List Int64} (h : ∀ value ∈ values, FitsInt64 (value.toInt - 2)) :
    ((values.map (· - 2)).map Int64.toInt).sum =
      (values.map Int64.toInt).sum - 2 * values.length := by
  induction values with
  | nil => rfl
  | cons value values ih =>
      obtain ⟨hvalue, hvalues⟩ := List.forall_mem_cons.mp h
      simp only [List.map_cons, List.sum_cons, ih hvalues, Throw.toInt_sub_two hvalue,
        List.length_cons]
      omega

theorem exactTotal_map_sub_two {values : List Int64}
    (h : ∀ value ∈ values, FitsInt64 (value.toInt - 2)) (dropped : List Nat) :
    exactTotal (values.map (· - 2)) dropped =
      exactTotal values dropped - 2 * (kept values dropped).length := by
  rw [← sum_kept, ← sum_kept, kept_map]
  exact sum_map_sub_two fun value hvalue => h value (mem_of_mem_kept hvalue)

/-- The second roll is the first one with every die lowered by two: it drops the same dice, and its
total is lower by two for each die that is kept. The totals are 64-bit sums, so their difference is
one in the integers if both of them are. -/
structure Roll.Lowered (high low : Roll) : Prop where
  draws : low.draws.map Int64.toInt = high.draws.map fun face => face.toInt - 2
  dropped : low.dropped = high.dropped
  total : low.total = high.total - Int64.ofInt (2 * (kept high.draws high.dropped).length)
  total_exact : FitsInt64 (exactTotal high.draws high.dropped) →
    FitsInt64 (exactTotal low.draws low.dropped) →
    low.total.toInt = high.total.toInt - 2 * (kept high.draws high.dropped).length

namespace Rule

open Play

theorem lowered_selected {threes fudges : Literal}
    (hselection : fudges.dice.selection? = threes.dice.selection?) {faces : List Int64}
    (hfits : ∀ face ∈ faces, FitsInt64 (face.toInt - 2)) (details details' : List Detail) :
    (selected threes faces details).Lowered
      (selected fudges (faces.map (· - 2)) details') := by
  have hdropped : fudges.dice.dropped (faces.map (· - 2)) = threes.dice.dropped faces := by
    apply Dice.dropped_map hselection
    intro a ha b hb hlt
    rw [Int64.lt_iff_toInt_lt] at hlt ⊢
    rw [Throw.toInt_sub_two (hfits a ha), Throw.toInt_sub_two (hfits b hb)]
    omega
  have hexact : exactTotal (faces.map (· - 2)) (fudges.dice.dropped (faces.map (· - 2))) =
      exactTotal faces (threes.dice.dropped faces) -
        2 * (kept faces (threes.dice.dropped faces)).length := by
    rw [hdropped]
    exact exactTotal_map_sub_two hfits _
  constructor
  · show (faces.map (· - 2)).map Int64.toInt = faces.map fun face => face.toInt - 2
    rw [List.map_map]
    exact List.map_congr_left fun face hface => Throw.toInt_sub_two (hfits face hface)
  · exact hdropped
  · show keptTotal (faces.map (· - 2)) (fudges.dice.dropped (faces.map (· - 2))) =
      keptTotal faces (threes.dice.dropped faces) -
        Int64.ofInt (2 * (kept faces (threes.dice.dropped faces)).length)
    rw [keptTotal_eq_ofInt, keptTotal_eq_ofInt, hexact, Int64.ofInt_sub]
  · intro hhigh hlow
    have hhighTotal : (selected threes faces details).total.toInt =
        exactTotal faces (threes.dice.dropped faces) := toInt_keptTotal hhigh
    have hlowTotal : (selected fudges (faces.map (· - 2)) details').total.toInt =
        exactTotal (faces.map (· - 2)) (fudges.dice.dropped (faces.map (· - 2))) :=
      toInt_keptTotal hlow
    rw [hlowTotal, hhighTotal]
    exact hexact

/-- **Two rules for the same dice.** Fudge dice are in step with as many three-sided dice under the
same selection, and are rolled as these are with every die lowered by two, if two less than a face is
still a 64-bit number. Pairs of duality dice are in step with twice as many single dice of the same
sides and show the same draws with the same total. -/
theorem standard_in_step (limits : Limits) :
    (∀ (count sides : Quantity) (selection? : Option Selection) (explode : Bool)
        (text text' : String),
      let fudges : Literal := ⟨text, ⟨count, sides, .fudge, explode, selection?⟩⟩
      let threes : Literal :=
        ⟨text', ⟨count, ⟨3, by decide, by decide⟩, .standard, false, selection?⟩⟩
      fudge.check limits fudges.dice = .ok () → standard.check limits threes.dice = .ok () →
      InStep (fun _ source => standard.roll limits source threes)
        (fun _ source => fudge.roll limits source fudges)
        (fun high low => (∀ face ∈ high.draws, FitsInt64 (face.toInt - 2)) → high.Lowered low)) ∧
    ∀ (count double sides : Quantity) (selection? : Option Selection) (explode : Bool)
        (text text' : String), double.val = 2 * count.val →
      let pairs : Literal := ⟨text, ⟨count, sides, .duality, explode, selection?⟩⟩
      let singles : Literal := ⟨text', ⟨double, sides, .standard, false, none⟩⟩
      duality.check limits pairs.dice = .ok () → standard.check limits singles.dice = .ok () →
      InStep (fun _ source => standard.roll limits source singles)
        (fun _ source => duality.roll limits source pairs)
        (fun flat paired => paired.draws = flat.draws ∧ paired.total = flat.total) := by
  constructor
  · intro count sides selection? explode text text' fudges threes hfudge hstandard
    have hthrees : ∀ σ (source : Source σ), standard.roll limits source threes =
        times count.val (source.face 3) >>= fun faces => pure (selected threes faces []) := by
      intro σ source
      rw [roll, hstandard, ofExcept_ok, pure_bind]
      exact rollStandard_of_not_explode rfl limits source
    have hfudges : ∀ σ (source : Source σ), fudge.roll limits source fudges =
        times count.val (source.face 3) >>= fun faces =>
          pure (selected fudges (faces.map (· - 2)) [⟨0, .fudge⟩]) := by
      intro σ source
      rw [roll, hfudge, ofExcept_ok, pure_bind]
      rfl
    simp only [hthrees, hfudges]
    exact inStep_of_common (fun _ source => times count.val (source.face 3)) fun faces hfits =>
      @lowered_selected threes fudges rfl faces hfits [] [⟨0, .fudge⟩]
  · intro count double sides selection? explode text text' hdouble pairs singles hduality hstandard
    have hsingles : ∀ σ (source : Source σ), standard.roll limits source singles =
        times (2 * count.val) (source.face sides.toInt64) >>= fun faces =>
          pure (selected singles faces []) := by
      intro σ source
      rw [roll, hstandard, ofExcept_ok, pure_bind, ← hdouble]
      exact rollStandard_of_not_explode rfl limits source
    have hpairs : ∀ σ (source : Source σ), duality.roll limits source pairs =
        times (2 * count.val) (source.face sides.toInt64) >>= fun faces =>
          pure { total := faces.sum, draws := faces, dropped := [], modifier := 0, label := text,
                 details := [⟨0, .duality (DualityPair.ofFaces faces)⟩] } := by
      intro σ source
      rw [roll, hduality, ofExcept_ok, pure_bind]
      exact rollDuality_eq source pairs
    simp only [hsingles, hpairs]
    exact inStep_of_common (fun _ source => times (2 * count.val) (source.face sides.toInt64))
      fun faces => ⟨rfl, (keptTotal_nil faces).symm⟩

/-- `3dF!kh2` beside `3d3kh2`, also if the source has a face too few, and a pair of duality dice
beside two single ones. -/
theorem standard_in_step_keep :
    let fudges : Literal := ⟨"3dF!kh2", ⟨⟨3, by decide, by decide⟩, ⟨3, by decide, by decide⟩, .fudge,
      true, some ⟨.keep, .high, ⟨2, by decide, by decide⟩⟩⟩⟩
    let threes : Literal := ⟨"3d3kh2", ⟨⟨3, by decide, by decide⟩, ⟨3, by decide, by decide⟩,
      .standard, false, some ⟨.keep, .high, ⟨2, by decide, by decide⟩⟩⟩⟩
    let pairs : Literal := ⟨"dh", ⟨.one, ⟨12, by decide, by decide⟩, .duality, false, none⟩⟩
    let singles : Literal :=
      ⟨"2d12", ⟨⟨2, by decide, by decide⟩, ⟨12, by decide, by decide⟩, .standard, false, none⟩⟩
    (⟨4, [1, 3, 1], [0], 0, "3d3kh2", []⟩ : Roll).Lowered
        ⟨0, [-1, 1, -1], [0], 0, "3dF!kh2", [⟨0, .fudge⟩]⟩ ∧
      (standard.roll {} (Script.source []).recorded threes (⟨[1, 3], .error⟩, [])).2 =
        (fudge.roll {} (Script.source []).recorded fudges (⟨[1, 3], .error⟩, [])).2 ∧
      (standard.roll {} (Script.source []).recorded singles (⟨[9, 2], .error⟩, [])).2 =
        (duality.roll {} (Script.source []).recorded pairs (⟨[9, 2], .error⟩, [])).2 := by
  intro fudges threes pairs singles
  have hfudge := (standard_in_step {}).1 ⟨3, by decide, by decide⟩ ⟨3, by decide, by decide⟩
    (some ⟨.keep, .high, ⟨2, by decide, by decide⟩⟩) true "3dF!kh2" "3d3kh2" rfl rfl
  have hduality := (standard_in_step {}).2 .one ⟨2, by decide, by decide⟩ ⟨12, by decide, by decide⟩
    none false "dh" "2d12" rfl rfl rfl
  have hthrees : (standard.roll {} (Script.source []) threes ⟨[1, 3, 1], .error⟩).1 =
      .ok ⟨4, [1, 3, 1], [0], 0, "3d3kh2", []⟩ := by cbv
  have hfudges : (fudge.roll {} (Script.source []) fudges ⟨[1, 3, 1], .error⟩).1 =
      .ok ⟨0, [-1, 1, -1], [0], 0, "3dF!kh2", [⟨0, .fudge⟩]⟩ := by cbv
  have hends := hfudge.ends Script (Script.source []) ⟨[1, 3, 1], .error⟩
  rw [hthrees, hfudges] at hends
  refine ⟨?_, hfudge.calls _ _ _ _, hduality.calls _ _ _ _⟩
  cases hends with
  | value hlowered =>
      apply hlowered
      simp only [List.forall_mem_cons]
      exact ⟨by decide, by decide, by decide, by simp⟩

end Rule

end DiceNotation
