import DiceNotation.Proofs.Accounting
import DiceNotation.Proofs.Selection
import Mathlib

/-!
# The layout of a roll

A roll names positions of its draws in two places: the dropped positions and the offsets of the
readings. Both are those of the groups, each moved by the number of draws before its group. From
this one fact follows all that a reader of a roll relies on.
-/

namespace DiceNotation

/-! ## What one group says of its draws -/

namespace Lead

variable {primary secondary : Int64}

theorem of_eq_primary_iff : of primary secondary = .primary ↔ secondary < primary := by
  unfold of
  split
  · simp_all
  · split <;> simp_all

theorem of_eq_secondary_iff : of primary secondary = .secondary ↔ primary < secondary := by
  unfold of
  by_cases h : secondary < primary
  · simp [h, Int64.not_lt.mpr (Int64.le_of_lt h)]
  · by_cases h' : primary < secondary <;> simp [h, h']

theorem of_eq_tie_iff : of primary secondary = .tie ↔ primary = secondary := by
  unfold of
  by_cases h : secondary < primary
  · simp only [if_pos h, reduceCtorEq, false_iff]
    rintro rfl
    exact Int64.lt_irrefl h
  · by_cases h' : primary < secondary
    · simp only [if_neg h, if_pos h', reduceCtorEq, false_iff]
      rintro rfl
      exact Int64.lt_irrefl h'
    · simpa [h, h'] using Int64.le_antisymm (Int64.not_lt.mp h) (Int64.not_lt.mp h')

end Lead

namespace DualityPair

theorem length_ofFaces : ∀ faces : List Int64, (ofFaces faces).length = faces.length / 2
  | [] => rfl
  | [_] => by simp [ofFaces]
  | _ :: _ :: faces => by
      simp only [ofFaces, List.length_cons, length_ofFaces faces]
      omega

theorem getElem?_ofFaces : ∀ {faces : List Int64} {i : Nat} {pair : DualityPair},
    (ofFaces faces)[i]? = some pair → faces[2 * i]? = some pair.primary ∧
      faces[2 * i + 1]? = some pair.secondary ∧ pair.lead = .of pair.primary pair.secondary
  | [], _, _, h => by simp [ofFaces] at h
  | [_], _, _, h => by simp [ofFaces] at h
  | primary :: secondary :: faces, 0, pair, h => by
      simp only [ofFaces, List.getElem?_cons_zero, Option.some.injEq] at h
      subst h
      exact ⟨rfl, rfl, rfl⟩
  | primary :: secondary :: faces, i + 1, pair, h => by
      rw [ofFaces, List.getElem?_cons_succ] at h
      have hrest := getElem?_ofFaces h
      exact hrest

end DualityPair

namespace Throw

/-- What a detail says of the draws of a roll if it is the reading of the throw. Standard dice have
no reading. -/
def Reads (t : Throw) (draws : List Int64) (detail : Detail) : Prop :=
  match t.rule, detail.reading with
  | .fudge, .fudge => True
  | .duality, .duality pairs =>
      pairs.length = t.literal.dice.count.val ∧
      ∀ i pair, pairs[i]? = some pair →
        draws[detail.offset + 2 * i]? = some pair.primary ∧
        draws[detail.offset + 2 * i + 1]? = some pair.secondary ∧
        (pair.lead = .primary ↔ pair.secondary < pair.primary) ∧
        (pair.lead = .secondary ↔ pair.primary < pair.secondary) ∧
        (pair.lead = .tie ↔ pair.primary = pair.secondary)
  | .faction, .faction reading =>
      reading.profile = Rule.profile t.literal.dice.kind ∧
      reading.base = t.literal.dice.count.val ∧
      reading.base ≤ reading.symbols.length ∧
      reading.symbols.length - reading.base =
        (reading.symbols.take reading.base).countP (· = .crit) ∧
      reading.symbols.length = t.shown.length ∧
      ∀ i symbol, reading.symbols[i]? = some symbol →
        ∃ face, draws[detail.offset + i]? = some face ∧ symbol = .of reading.profile face
  | _, _ => False

/-- A group of standard dice has no reading, and any other group has one. -/
theorem details_roll (t : Throw) : (t.rule = .standard ∧ t.roll.details = []) ∨
    (t.rule ≠ .standard ∧ ∃ reading, t.roll.details = [⟨0, reading⟩]) := by
  obtain ⟨rule, literal, faces, hfaces⟩ := t
  cases rule with
  | standard => exact .inl ⟨rfl, rfl⟩
  | _ => exact .inr ⟨by simp, _, rfl⟩

theorem reads_faction {t : Throw} {limits : Limits} (hcomplete : t.Complete limits)
    (hrule : t.rule = .faction) {draws : List Int64} {offset : Nat} {detail : Detail}
    (hdraws : ∀ i, i < t.faces.length → draws[offset + i]? = t.faces[i]?)
    (hdetail : detail = ⟨offset, .faction ⟨Rule.profile t.literal.dice.kind,
      t.faces.map t.symbol, t.literal.dice.count.val⟩⟩) : t.Reads draws detail := by
  subst hdetail
  simp only [Complete, hrule] at hcomplete
  simp only [Reads, hrule, shown, List.length_map, true_and]
  refine ⟨by omega, ?_, ?_⟩
  · rw [hcomplete, Nat.add_sub_cancel_left, ← List.map_take, List.countP_map]
    rfl
  · intro i symbol hsymbol
    rw [List.getElem?_map] at hsymbol
    obtain ⟨face, hface, rfl⟩ := Option.map_eq_some_iff.mp hsymbol
    obtain ⟨hi, -⟩ := List.getElem?_eq_some_iff.mp hface
    exact ⟨face, (hdraws i hi).trans hface, rfl⟩

theorem reads_duality {t : Throw} {limits : Limits} (hcomplete : t.Complete limits)
    (hrule : t.rule = .duality) {draws : List Int64} {offset : Nat} {detail : Detail}
    (hdraws : ∀ i, i < t.faces.length → draws[offset + i]? = t.faces[i]?)
    (hdetail : detail = ⟨offset, .duality (DualityPair.ofFaces t.faces)⟩) :
    t.Reads draws detail := by
  subst hdetail
  simp only [Complete, hrule] at hcomplete
  simp only [Reads, hrule]
  refine ⟨?_, ?_⟩
  · rw [DualityPair.length_ofFaces, hcomplete, Nat.mul_div_cancel_left _ (by decide)]
  · intro i pair hpair
    obtain ⟨hprimary, hsecondary, hlead⟩ := DualityPair.getElem?_ofFaces hpair
    obtain ⟨hi, -⟩ := List.getElem?_eq_some_iff.mp hsecondary
    refine ⟨(hdraws _ (by omega)).trans hprimary, (hdraws _ hi).trans hsecondary, ?_⟩
    rw [hlead]
    exact ⟨Lead.of_eq_primary_iff, Lead.of_eq_secondary_iff, Lead.of_eq_tie_iff⟩

/-- The reading of a group stays right where its draws are a block of a longer list. -/
theorem reads_of_mem_details {t : Throw} {limits : Limits} (hcomplete : t.Complete limits)
    {draws : List Int64} {offset : Nat} {reading : Reading}
    (hdraws : ∀ i, i < t.shown.length → draws[offset + i]? = t.shown[i]?)
    (hdetail : t.roll.details = [⟨0, reading⟩]) : t.Reads draws ⟨offset, reading⟩ := by
  obtain ⟨rule, literal, faces, hfaces⟩ := t
  cases rule with
  | standard => cases hdetail
  | fudge => cases hdetail; trivial
  | duality => cases hdetail; exact reads_duality hcomplete rfl hdraws rfl
  | faction => cases hdetail; exact reads_faction hcomplete rfl hdraws rfl

theorem dropped_dice_sorted (dice : Dice) (values : List Int64) :
    (dice.dropped values).Pairwise (· < ·) ∧ ∀ i ∈ dice.dropped values, i < values.length := by
  unfold Dice.dropped
  split
  · simp
  · exact ⟨Selection.dropped_sorted _ _, fun i => Selection.lt_length_of_mem_dropped⟩

/-- Only standard and fudge dice are ever dropped. -/
theorem dropped_roll_eq_nil {t : Throw} (h : t.rule = .duality ∨ t.rule = .faction) :
    t.roll.dropped = [] := by
  unfold roll
  rcases h with h | h <;> rw [h]

theorem dropped_roll (t : Throw) :
    t.roll.dropped.Pairwise (· < ·) ∧ ∀ i ∈ t.roll.dropped, i < t.shown.length := by
  obtain ⟨rule, literal, faces, hfaces⟩ := t
  cases rule with
  | standard => exact dropped_dice_sorted literal.dice faces
  | fudge => exact dropped_dice_sorted literal.dice (faces.map (· - 2))
  | duality => exact ⟨.nil, by simp [roll]⟩
  | faction => exact ⟨.nil, by simp [roll]⟩

/-! ## Where the groups lie -/

/-- The throws, each with the position of its first draw, if the first one starts at `start`. -/
def placed (start : Nat) : List Throw → List (Nat × Throw)
  | [] => []
  | t :: throws => (start, t) :: placed (start + t.shown.length) throws

theorem placed_append (start : Nat) (first second : List Throw) :
    placed start (first ++ second) =
      placed start first ++ placed (start + (first.flatMap shown).length) second := by
  induction first generalizing start with
  | nil => rfl
  | cons t first ih => simp [placed, ih, Nat.add_assoc]

theorem placed_add (start amount : Nat) (throws : List Throw) :
    placed (start + amount) throws = (placed start throws).map fun p => (p.1 + amount, p.2) := by
  induction throws generalizing start with
  | nil => rfl
  | cons t throws ih =>
      rw [placed, placed, List.map_cons, Nat.add_right_comm, ih]

/-- A group starts behind the draws of all groups before it. -/
theorem exists_of_mem_placed {start : Nat} {throws : List Throw} {p : Nat × Throw}
    (h : p ∈ placed start throws) : ∃ before after, throws = before ++ p.2 :: after ∧
      p.1 = start + (before.flatMap shown).length := by
  induction throws generalizing start with
  | nil => cases h
  | cons t throws ih =>
      rcases List.mem_cons.mp h with rfl | h
      · exact ⟨[], throws, rfl, rfl⟩
      · obtain ⟨before, after, rfl, hstart⟩ := ih h
        refine ⟨t :: before, after, rfl, ?_⟩
        rw [hstart, List.flatMap_cons, List.length_append, Nat.add_assoc]

theorem mem_of_mem_placed {start : Nat} {throws : List Throw} {p : Nat × Throw}
    (h : p ∈ placed start throws) : p.2 ∈ throws := by
  obtain ⟨before, after, rfl, -⟩ := exists_of_mem_placed h
  exact List.mem_append_right _ List.mem_cons_self

/-- The draws of a group are a block of the draws of all. -/
theorem getElem?_of_mem_placed {throws : List Throw} {p : Nat × Throw}
    (h : p ∈ placed 0 throws) {i : Nat} (hi : i < p.2.shown.length) :
    (throws.flatMap shown)[p.1 + i]? = p.2.shown[i]? := by
  obtain ⟨before, after, rfl, hstart⟩ := exists_of_mem_placed h
  rw [hstart, Nat.zero_add, List.flatMap_append, List.flatMap_cons,
    List.getElem?_append_right (Nat.le_add_right _ _), Nat.add_sub_cancel_left,
    List.getElem?_append_left hi]

theorem end_le_of_mem_placed {throws : List Throw} {p : Nat × Throw}
    (h : p ∈ placed 0 throws) : p.1 + p.2.shown.length ≤ (throws.flatMap shown).length := by
  obtain ⟨before, after, rfl, hstart⟩ := exists_of_mem_placed h
  simp only [hstart, List.flatMap_append, List.flatMap_cons, List.length_append]
  omega

theorem start_le_of_mem_placed {start : Nat} {throws : List Throw} {p : Nat × Throw}
    (h : p ∈ placed start throws) : start ≤ p.1 := by
  obtain ⟨before, after, -, hstart⟩ := exists_of_mem_placed h
  omega

/-- A group ends before the next one starts. -/
theorem placed_pairwise (start : Nat) (throws : List Throw) :
    (placed start throws).Pairwise fun p q => p.1 + p.2.shown.length ≤ q.1 := by
  induction throws generalizing start with
  | nil => exact .nil
  | cons t throws ih => exact .cons (fun q hq => start_le_of_mem_placed hq) (ih _)

theorem placed_disjoint {throws : List Throw} {p q : Nat × Throw} (hp : p ∈ placed 0 throws)
    (hq : q ∈ placed 0 throws) (hne : p ≠ q) :
    p.1 + p.2.shown.length ≤ q.1 ∨ q.1 + q.2.shown.length ≤ p.1 := by
  let Apart (p q : Nat × Throw) : Prop :=
    p.1 + p.2.shown.length ≤ q.1 ∨ q.1 + q.2.shown.length ≤ p.1
  have hsymm : Std.Symm Apart := ⟨fun _ _ => Or.symm⟩
  have hapart : (placed 0 throws).Pairwise Apart := (placed_pairwise 0 throws).imp Or.inl
  exact hapart.forall hp hq hne

end Throw

/-! ## The whole roll -/

open Throw

/-- A roll that consists of the rolls of its throws, the positions of each one moved to where its
draws lie. -/
structure Assembled (throws : List Throw) (roll : Roll) : Prop where
  draws_eq : roll.draws = throws.flatMap shown
  dropped_eq : roll.dropped = (placed 0 throws).flatMap fun p => p.2.roll.dropped.map (· + p.1)
  details_eq : roll.details =
    (placed 0 throws).flatMap fun p => p.2.roll.details.map (Detail.shift p.1)

namespace Assembled

theorem constant (value : Int64) : Assembled [] (.constant value) :=
  ⟨rfl, rfl, rfl⟩

theorem single (t : Throw) : Assembled [t] t.roll where
  draws_eq := by simpa using t.draws_roll
  dropped_eq := by simp [placed]
  details_eq := by
    have hshift : Detail.shift 0 = id := rfl
    simp [placed, hshift]

variable {first second throws : List Throw} {left right roll : Roll} {op : Operator}

theorem combine (hl : Assembled first left) (hr : Assembled second right)
    (h : left.combine op right = .ok roll) : Assembled (first ++ second) roll := by
  -- the places of the right side all move by the draws of the left
  have hplaced : placed 0 (first ++ second) = placed 0 first ++
      (placed 0 second).map fun p => (p.1 + left.draws.length, p.2) := by
    rw [placed_append, ← hl.draws_eq, placed_add]
  obtain ⟨total, modifier, -, -, rfl⟩ := Roll.combine_eq_ok_iff.mp h
  constructor
  · simp only [hl.draws_eq, hr.draws_eq, List.flatMap_append]
  · simp only [hplaced, List.flatMap_append, List.flatMap_map, ← hl.dropped_eq, hr.dropped_eq,
      List.map_flatMap, List.map_map, Function.comp_def, Nat.add_assoc]
  · have hshift : ∀ a b, Detail.shift a ∘ Detail.shift b = Detail.shift (b + a) := by
      intro a b
      funext detail
      simp [Detail.shift, Nat.add_assoc]
    simp only [hplaced, List.flatMap_append, List.flatMap_map, ← hl.details_eq, hr.details_eq,
      List.map_flatMap, List.map_map, hshift]

theorem of_settles {table : Table} {e : Expr} (h : Expr.Settles table e throws roll) :
    Assembled throws roll := by
  induction h with
  | number value => exact constant value
  | dice t _ _ => exact single t
  | binary _ _ hcombine ihl ihr => exact ihl.combine ihr hcombine

theorem relabel (h : Assembled throws roll) (label : String) :
    Assembled throws { roll with label := label } :=
  ⟨h.draws_eq, h.dropped_eq, h.details_eq⟩

theorem getElem?_draws (h : Assembled throws roll) {p : Nat × Throw} (hp : p ∈ placed 0 throws)
    {i : Nat} (hi : i < p.2.shown.length) : roll.draws[p.1 + i]? = p.2.shown[i]? := by
  rw [h.draws_eq]
  exact getElem?_of_mem_placed hp hi

/-- A dropped position belongs to one of the groups. -/
theorem exists_of_mem_dropped (h : Assembled throws roll) {i : Nat} (hi : i ∈ roll.dropped) :
    ∃ p ∈ placed 0 throws, p.2.roll.dropped ≠ [] ∧ p.1 ≤ i ∧ i < p.1 + p.2.shown.length := by
  rw [h.dropped_eq] at hi
  obtain ⟨p, hp, hi⟩ := List.mem_flatMap.mp hi
  obtain ⟨j, hj, rfl⟩ := List.mem_map.mp hi
  have hlt := p.2.dropped_roll.2 j hj
  exact ⟨p, hp, List.ne_nil_of_mem hj, by omega, by omega⟩

/-- Within the block of a group, what is dropped of the roll is what is dropped of the group. -/
theorem mem_dropped_iff (h : Assembled throws roll) {p : Nat × Throw} (hp : p ∈ placed 0 throws)
    {i : Nat} (hi : i < p.2.shown.length) : p.1 + i ∈ roll.dropped ↔ i ∈ p.2.roll.dropped := by
  rw [h.dropped_eq, List.mem_flatMap]
  constructor
  · rintro ⟨q, hq, hmem⟩
    obtain ⟨j, hj, hij⟩ := List.mem_map.mp hmem
    have hlt := q.2.dropped_roll.2 j hj
    by_cases hpq : p = q
    · subst hpq
      obtain rfl : j = i := by omega
      exact hj
    · rcases placed_disjoint hp hq hpq with hbefore | hafter <;> omega
  · intro hmem
    exact ⟨p, hp, List.mem_map.mpr ⟨i, hmem, Nat.add_comm i p.1⟩⟩

theorem dropped_sorted (h : Assembled throws roll) : roll.dropped.Pairwise (· < ·) := by
  rw [h.dropped_eq, List.pairwise_flatMap]
  constructor
  · intro p _
    rw [List.pairwise_map]
    exact p.2.dropped_roll.1.imp fun hlt => Nat.add_lt_add_right hlt p.1
  · refine (placed_pairwise 0 throws).imp ?_
    intro p q hpq i hi j hj
    obtain ⟨a, ha, rfl⟩ := List.mem_map.mp hi
    obtain ⟨b, -, rfl⟩ := List.mem_map.mp hj
    have hlt := p.2.dropped_roll.2 a ha
    omega

theorem lt_length_of_mem_dropped (h : Assembled throws roll) {i : Nat} (hi : i ∈ roll.dropped) :
    i < roll.draws.length := by
  obtain ⟨p, hp, -, -, hlt⟩ := h.exists_of_mem_dropped hi
  have hend := end_le_of_mem_placed hp
  rw [h.draws_eq]
  omega

theorem not_dropped (h : Assembled throws roll) {p : Nat × Throw} (hp : p ∈ placed 0 throws)
    (hrule : p.2.rule = .duality ∨ p.2.rule = .faction) {i : Nat} (hi : i ∈ roll.dropped) :
    i < p.1 ∨ p.1 + p.2.shown.length ≤ i := by
  obtain ⟨q, hq, hdropped, hle, hlt⟩ := h.exists_of_mem_dropped hi
  have hne : p ≠ q := by
    rintro rfl
    exact hdropped (dropped_roll_eq_nil hrule)
  rcases placed_disjoint hp hq hne with hbefore | hafter
  · exact .inr (Nat.le_trans hbefore hle)
  · exact .inl (Nat.lt_of_lt_of_le hlt hafter)

/-- The details are the readings of the groups that have one, in their order. -/
theorem forall₂_details (h : Assembled throws roll) {limits : Limits}
    (hcomplete : ∀ t ∈ throws, t.Complete limits) :
    List.Forall₂ (fun p detail => detail.offset = p.1 ∧ p.2.Reads roll.draws detail)
      ((placed 0 throws).filter fun p => p.2.rule ≠ .standard) roll.details := by
  -- by induction on the places that are left, with the draws of the whole roll
  have hall : ∀ places : List (Nat × Throw), (∀ p ∈ places, p ∈ placed 0 throws) →
      List.Forall₂ (fun p detail => detail.offset = p.1 ∧ p.2.Reads roll.draws detail)
        (places.filter fun p => p.2.rule ≠ .standard)
        (places.flatMap fun p => p.2.roll.details.map (Detail.shift p.1)) := by
    intro places hplaces
    induction places with
    | nil => exact .nil
    | cons p places ih =>
        obtain ⟨hp, hplaces⟩ := List.forall_mem_cons.mp hplaces
        rcases p.2.details_roll with ⟨hrule, hdetails⟩ | ⟨hrule, reading, hdetails⟩
        · simpa [hrule, hdetails] using ih hplaces
        · have hreads : p.2.Reads roll.draws ⟨p.1, reading⟩ := by
            refine reads_of_mem_details (hcomplete _ (mem_of_mem_placed hp)) ?_ hdetails
            exact fun i hi => h.getElem?_draws hp hi
          have hboth := And.intro hreads (ih hplaces)
          simpa [hrule, hdetails, Detail.shift] using hboth
  rw [h.details_eq]
  exact hall _ fun p hp => hp

/-- Groups are not empty, so no two of them start at the same position. -/
theorem offsets_sorted (h : Assembled throws roll) {limits : Limits}
    (hcomplete : ∀ t ∈ throws, t.Complete limits) :
    (roll.details.map Detail.offset).Pairwise (· < ·) := by
  have hoffsets : ((placed 0 throws).filter fun p => p.2.rule ≠ .standard).map (·.1) =
      roll.details.map Detail.offset := by
    rw [← List.forall₂_eq_eq_eq, List.forall₂_map_left_iff, List.forall₂_map_right_iff]
    exact (h.forall₂_details hcomplete).imp fun p detail hdetail => hdetail.1.symm
  rw [← hoffsets, List.pairwise_map]
  refine ((placed_pairwise 0 throws).filter _).imp ?_
  intro p q hpq
  have hpos := List.length_pos_of_ne_nil p.2.shown_ne_nil
  omega

end Assembled

/-- What holds of the positions in a roll: dropped ones are in ascending order and name draws; there
is one detail for each group that is not of standard dice, which stands at the group's first draw
and reads the group's draws; and no die of a duality or faction group is dropped. -/
structure Layout (throws : List Throw) (roll : Roll) : Prop where
  draws_eq : roll.draws = throws.flatMap shown
  dropped_sorted : roll.dropped.Pairwise (· < ·)
  dropped_lt : ∀ i ∈ roll.dropped, i < roll.draws.length
  offsets_sorted : (roll.details.map Detail.offset).Pairwise (· < ·)
  readings : List.Forall₂ (fun p detail => detail.offset = p.1 ∧ p.2.Reads roll.draws detail)
    ((placed 0 throws).filter fun p => p.2.rule ≠ .standard) roll.details
  not_dropped : ∀ p ∈ placed 0 throws, p.2.rule = .duality ∨ p.2.rule = .faction →
    ∀ i ∈ roll.dropped, i < p.1 ∨ p.1 + p.2.shown.length ≤ i

theorem Assembled.layout {throws : List Throw} {roll : Roll} (h : Assembled throws roll)
    {limits : Limits} (hcomplete : ∀ t ∈ throws, t.Complete limits) : Layout throws roll where
  draws_eq := h.draws_eq
  dropped_sorted := h.dropped_sorted
  dropped_lt := fun _ => h.lt_length_of_mem_dropped
  offsets_sorted := h.offsets_sorted hcomplete
  readings := h.forall₂_details hcomplete
  not_dropped := fun _ hp hrule _ => h.not_dropped hp hrule

theorem Expr.Settles.complete {table : Table} {e : Expr} {throws : List Throw} {roll : Roll}
    (h : Expr.Settles table e throws roll) : ∀ t ∈ throws, t.Complete table.limits := by
  induction h with
  | number value => simp
  | dice t _ hcomplete => simpa using hcomplete
  | binary _ _ _ ihl ihr => exact List.forall_mem_append.mpr ⟨ihl, ihr⟩

/-- **The layout of a roll.** Whatever a table evaluates, the roll has the layout of its throws: one
complete throw for each group of dice in post-order, which together are all that was drawn. -/
theorem Table.layout_of_evaluate {table : Table} {formula : Formula} {σ : Type}
    {source : Source σ} {s s' : σ} {roll : Roll}
    (h : table.evaluate source formula s = (.ok roll, s')) (record : List Draw) :
    ∃ throws : List Throw,
      throws.map Throw.literal = formula.tokens.filterMap Token.literal? ∧
      (∀ t ∈ throws, table.rulebook.ruleFor t.literal = .ok t.rule ∧ t.Complete table.limits) ∧
      table.evaluate source.recorded formula (s, record) =
        (.ok roll, s', (throws.flatMap Throw.calls).reverse ++ record) ∧
      Layout throws roll := by
  obtain ⟨e, throws, raw, htokens, hsettles, hroll, hrun⟩ := exists_settles_of_evaluate h record
  have haccounts := hsettles.accounts
  have hcomplete := hsettles.complete
  have hraw := Assembled.of_settles hsettles
  have hassembled : Assembled throws roll := by
    rw [hroll]
    exact ⟨hraw.draws_eq, hraw.dropped_eq, hraw.details_eq⟩
  refine ⟨throws, ?_, ?_, hrun, hassembled.layout hcomplete⟩
  · rw [haccounts.literals, htokens]
  · exact fun t ht => ⟨haccounts.rules t ht, hcomplete t ht⟩

/-- `2d6kl1 - dMcpAtk` where the source answers 5, 2, 8, 3: one die is dropped, and a crit has drawn
a bonus die. -/
theorem Table.layout_of_evaluate_faction :
    ∃ throws : List Throw, throws.map Throw.literal =
        [⟨"2d6kl1", ⟨⟨2, by decide, by decide⟩, ⟨6, by decide, by decide⟩, .standard, false,
            some ⟨.keep, .low, .one⟩⟩⟩,
          ⟨"dMcpAtk", .plain .one ⟨8, by decide, by decide⟩ .factionAttack⟩] ∧
      Layout throws ⟨2, [5, 2, 8, 3], [0], 0, "2d6kl1 - dMcpAtk",
        [⟨2, .faction ⟨.attack, [.crit, .blank], 1⟩⟩]⟩ := by
  obtain ⟨throws, hliterals, -, -, hlayout⟩ :=
    @layout_of_evaluate {} ⟨[.dice ⟨"2d6kl1", ⟨⟨2, by decide, by decide⟩, ⟨6, by decide, by decide⟩,
        .standard, false, some ⟨.keep, .low, .one⟩⟩⟩,
      .dice ⟨"dMcpAtk", .plain .one ⟨8, by decide, by decide⟩ .factionAttack⟩,
      .operator .sub], "2d6kl1 - dMcpAtk"⟩ Script (Script.source []) ⟨[5, 2, 8, 3], .error⟩
      ⟨[], .error⟩
      ⟨2, [5, 2, 8, 3], [0], 0, "2d6kl1 - dMcpAtk", [⟨2, .faction ⟨.attack, [.crit, .blank], 1⟩⟩]⟩
      (by cbv) []
  exact ⟨throws, hliterals, hlayout⟩

end DiceNotation
