import DiceNotation.Proofs.Answers
import DiceNotation.Proofs.DrawBounds
import DiceNotation.Proofs.Explosions
import DiceNotation.Proofs.RuleOverlap

/-!
# Totals of groups

The values of a group are added up in 64-bit numbers without a check. None is needed: under limits
whose product of dice, draws for each die and faces is a 64-bit number, no sum on the way leaves the
64-bit integers, as long as the source gives faces that the dice have. An upper bound for the values
bounds every sum of some of them, so the argument needs to know how many values there are and how
large one is, and nothing of which ones are kept.
-/

namespace DiceNotation

/-! ## Sums -/

/-- The total is the sum of the values in the integers, and no sum of the first ones of them leaves
the 64-bit integers. -/
structure SumsExactly (values : List Int64) (total : Int64) : Prop where
  fits : ∀ n, FitsInt64 ((values.take n).map Int64.toInt).sum
  exact : total.toInt = (values.map Int64.toInt).sum

section Sums

variable {values : List Int64} {low high : Int}

theorem fitsInt64_iff {n : Int} :
    FitsInt64 n ↔ -9223372036854775808 ≤ n ∧ n ≤ 9223372036854775807 := by
  have hmin : Int64.minValue.toInt = -9223372036854775808 := by decide
  have hmax : Int64.maxValue.toInt = 9223372036854775807 := by decide
  rw [FitsInt64, hmin, hmax]

theorem sum_between (h : ∀ v ∈ values, low ≤ v.toInt ∧ v.toInt ≤ high) :
    values.length * low ≤ (values.map Int64.toInt).sum ∧
      (values.map Int64.toInt).sum ≤ values.length * high := by
  induction values with
  | nil => simp
  | cons value values ih =>
      obtain ⟨⟨hlow, hhigh⟩, hvalues⟩ := List.forall_mem_cons.mp h
      obtain ⟨hle, hge⟩ := ih hvalues
      rw [List.map_cons, List.sum_cons, List.length_cons]
      push_cast
      constructor <;> linarith

/-- A bound for so many values bounds all sums of the first ones. -/
theorem sumsExactly_of_between (h : ∀ v ∈ values, low ≤ v.toInt ∧ v.toInt ≤ high)
    (hlow : -high ≤ low) (hhigh : 0 ≤ high)
    (hbound : values.length * high ≤ 9223372036854775807) : SumsExactly values values.sum := by
  have hfits : ∀ n, FitsInt64 ((values.take n).map Int64.toInt).sum := by
    intro n
    have htake := fun v hv => h v (List.mem_of_mem_take (i := n) hv)
    obtain ⟨hle, hge⟩ := sum_between htake
    have hlength : ((values.take n).length : Int) ≤ values.length := by
      exact_mod_cast List.length_take_le' n values
    have hmost : ((values.take n).length : Int) * high ≤ values.length * high :=
      mul_le_mul_of_nonneg_right hlength hhigh
    have hleast : ((values.take n).length : Int) * -high ≤ (values.take n).length * low :=
      mul_le_mul_of_nonneg_left hlow (Int.natCast_nonneg _)
    rw [fitsInt64_iff]
    constructor <;> linarith
  refine ⟨hfits, ?_⟩
  have hall := hfits values.length
  rw [List.take_length] at hall
  rw [sum_eq_ofInt, toInt_ofInt_of_fits hall]

end Sums

/-! ## What is kept -/

/-- How many draws of a roll are not dropped. -/
def Roll.keptCount (roll : Roll) : Nat :=
  (List.range roll.draws.length).countP (· ∉ roll.dropped)

theorem Roll.length_kept (roll : Roll) :
    (kept roll.draws roll.dropped).length = roll.keptCount := by
  rw [kept_eq_map, List.length_map, keptCount, List.countP_eq_length_filter]

theorem Roll.keptCount_le (roll : Roll) : roll.keptCount ≤ roll.draws.length := by
  rw [keptCount]
  exact (List.countP_le_length).trans_eq List.length_range

/-- What is known of all draws is known of the kept ones, and bounds their total. -/
theorem Roll.sumsExactly_of_between {roll : Roll} {low high : Int}
    (htotal : roll.total = keptTotal roll.draws roll.dropped)
    (h : ∀ v ∈ roll.draws, low ≤ v.toInt ∧ v.toInt ≤ high) (hlow : -high ≤ low) (hhigh : 0 ≤ high)
    (hbound : roll.draws.length * high ≤ 9223372036854775807) :
    SumsExactly (kept roll.draws roll.dropped) roll.total ∧
      roll.keptCount * low ≤ roll.total.toInt ∧ roll.total.toInt ≤ roll.keptCount * high := by
  have hkept : ∀ v ∈ kept roll.draws roll.dropped, low ≤ v.toInt ∧ v.toInt ≤ high :=
    fun v hv => h v (mem_of_mem_kept hv)
  have hlength : (roll.keptCount : Int) ≤ roll.draws.length := by
    exact_mod_cast roll.keptCount_le
  have hmost : roll.keptCount * high ≤ roll.draws.length * high :=
    mul_le_mul_of_nonneg_right hlength hhigh
  have hexact : SumsExactly (kept roll.draws roll.dropped) roll.total := by
    rw [htotal]
    apply DiceNotation.sumsExactly_of_between hkept hlow hhigh
    rw [roll.length_kept]
    exact hmost.trans hbound
  obtain ⟨hle, hge⟩ := sum_between hkept
  rw [← hexact.exact, roll.length_kept] at hle hge
  exact ⟨hexact, hle, hge⟩

/-! ## Faces -/

/-- Asked for a face of a die that has one, the source gives a face of this die if it gives any. -/
def Source.InRange {σ : Type} (source : Source σ) : Prop :=
  ∀ sides state face, 1 ≤ sides.toInt → (source.draw sides state).1 = .ok face →
    1 ≤ face.toInt ∧ face.toInt ≤ sides.toInt

/-- The limits have room for the sums of all groups. A chain of draws counts as two at least, for
the two dice of a duality pair. -/
def Limits.SumsFit (limits : Limits) : Prop :=
  limits.dice * max 2 limits.explosionDepth * limits.sides ≤ 9223372036854775807

instance (limits : Limits) : Decidable limits.SumsFit :=
  inferInstanceAs (Decidable (_ ≤ _))

/-- So many draws of a die with so many faces have room if the group passes the limits. -/
theorem Limits.SumsFit.mul_sides_le {limits : Limits} (h : limits.SumsFit) {dice : Dice} {n : Nat}
    (hn : n ≤ dice.count.val * max 2 limits.explosionDepth) (hcount : dice.count.val ≤ limits.dice)
    (hsides : dice.sides.val ≤ limits.sides) :
    (n : Int) * dice.sides.val ≤ 9223372036854775807 := by
  have hdraws : n ≤ limits.dice * max 2 limits.explosionDepth :=
    hn.trans (Nat.mul_le_mul_right _ hcount)
  exact_mod_cast (Nat.mul_le_mul hdraws hsides).trans h

namespace Throw

variable {t : Throw} {limits : Limits}

theorem one_le_sides (t : Throw) : 1 ≤ t.sides.toInt := by
  have hpos := t.literal.dice.sides.pos
  have hsides := t.literal.dice.sides.toInt_toInt64
  unfold sides
  split
  · decide
  · omega

theorem faces_between {σ : Type} {source : Source σ} (hsource : source.InRange)
    (hfaces : ∀ face ∈ t.faces, source.Answers (Draw.face t.sides face)) :
    ∀ face ∈ t.faces, 1 ≤ face.toInt ∧ face.toInt ≤ t.sides.toInt := by
  intro face hface
  obtain ⟨state, hstate⟩ := hfaces face hface
  exact hsource t.sides state face t.one_le_sides hstate

/-- Each die of a standard group is drawn at most as often as the longest chain. -/
theorem length_faces_le_of_standard (hrule : t.rule = .standard) (hcomplete : t.Complete limits) :
    t.faces.length ≤ t.literal.dice.count.val * max 1 limits.explosionDepth := by
  rw [Complete, hrule] at hcomplete
  obtain ⟨chains, hlength, hchains, hfaces⟩ := hcomplete
  rw [hfaces, List.length_flatten, ← hlength]
  have hle : ∀ n ∈ chains.map List.length, n ≤ max 1 limits.explosionDepth := by
    intro n hn
    obtain ⟨chain, hchain, rfl⟩ := List.mem_map.mp hn
    have hshort := (Rule.isChain_iff.mp (hchains chain hchain)).2.2.1
    exact hshort.trans (Rule.extraDraws_lt limits t.literal.dice)
  have hsum := List.sum_le_card_nsmul _ _ hle
  simpa using hsum

end Throw

/-! ## Rules -/

/-- What is known of the total of a group that the rule has rolled. Faction dice are not added
up. -/
def Rule.Totals (rule : Rule) (dice : Dice) (roll : Roll) : Prop :=
  match rule with
  | standard => SumsExactly (kept roll.draws roll.dropped) roll.total ∧
      roll.keptCount ≤ roll.total.toInt ∧ roll.total.toInt ≤ roll.keptCount * dice.sides.val
  | fudge => SumsExactly (kept roll.draws roll.dropped) roll.total ∧
      (∀ value ∈ roll.draws, value ∈ ([-1, 0, 1] : List Int64)) ∧
      -roll.keptCount ≤ roll.total.toInt ∧ roll.total.toInt ≤ roll.keptCount
  | duality => SumsExactly roll.draws roll.total ∧
      2 * dice.count.val ≤ roll.total.toInt ∧ roll.total.toInt ≤ 24 * dice.count.val
  | faction => roll.total = 0

namespace Throw

variable {t : Throw} {limits : Limits}

theorem totals_of_standard (hrule : t.rule = .standard) (hcomplete : t.Complete limits)
    (hlimits : limits.SumsFit) (hcount : t.literal.dice.count.val ≤ limits.dice)
    (hsides : t.literal.dice.sides.val ≤ limits.sides)
    (hfaces : ∀ face ∈ t.faces, 1 ≤ face.toInt ∧ face.toInt ≤ t.sides.toInt) :
    Rule.standard.Totals t.literal.dice t.roll := by
  have hlength := length_faces_le_of_standard hrule hcomplete
  obtain ⟨_, literal, faces, _⟩ := t
  obtain rfl : _ = Rule.standard := hrule
  have hbetween : ∀ face ∈ faces, 1 ≤ face.toInt ∧ face.toInt ≤ literal.dice.sides.val := by
    intro face hface
    rw [← literal.dice.sides.toInt_toInt64]
    exact hfaces face hface
  have hmost : faces.length ≤ literal.dice.count.val * max 2 limits.explosionDepth :=
    hlength.trans (Nat.mul_le_mul_left _ (max_le_max_right _ (by decide)))
  have hpos : 0 ≤ (literal.dice.sides.val : Int) := Int.natCast_nonneg _
  have htotal : (Rule.selected literal faces []).total =
      keptTotal faces (literal.dice.dropped faces) := rfl
  obtain ⟨hexact, hle, hge⟩ := Roll.sumsExactly_of_between htotal hbetween (by omega) hpos
    (hlimits.mul_sides_le hmost hcount hsides)
  rw [mul_one] at hle
  exact ⟨hexact, hle, hge⟩

theorem totals_of_fudge (hrule : t.rule = .fudge) (hcomplete : t.Complete limits)
    (hfaces : ∀ face ∈ t.faces, 1 ≤ face.toInt ∧ face.toInt ≤ t.sides.toInt) :
    Rule.fudge.Totals t.literal.dice t.roll := by
  obtain ⟨_, literal, faces, _⟩ := t
  obtain rfl : _ = Rule.fudge := hrule
  have hlength : faces.length = literal.dice.count.val := hcomplete
  have hlowered : ∀ value ∈ faces.map (· - 2), -1 ≤ value.toInt ∧ value.toInt ≤ 1 := by
    intro value hvalue
    obtain ⟨face, hface, rfl⟩ := List.mem_map.mp hvalue
    obtain ⟨hlow, hhigh⟩ : 1 ≤ face.toInt ∧ face.toInt ≤ 3 := hfaces face hface
    have hfits : FitsInt64 (face.toInt - 2) := by
      rw [fitsInt64_iff]
      omega
    rw [toInt_sub_two hfits]
    omega
  have hbound : ((faces.map (· - 2)).length : Int) * 1 ≤ 9223372036854775807 := by
    have hle := literal.dice.count.le
    rw [List.length_map, hlength]
    omega
  have htotal : (Rule.selected literal (faces.map (· - 2)) [⟨0, .fudge⟩]).total =
      keptTotal (faces.map (· - 2)) (literal.dice.dropped (faces.map (· - 2))) := rfl
  obtain ⟨hexact, hle, hge⟩ := Roll.sumsExactly_of_between htotal hlowered (by decide) (by decide)
    hbound
  rw [mul_one] at hge
  rw [mul_neg, mul_one] at hle
  refine ⟨hexact, ?_, hle, hge⟩
  intro value hvalue
  obtain ⟨hlow, hhigh⟩ := hlowered value hvalue
  have hcases : value.toInt = (-1 : Int64).toInt ∨ value.toInt = (0 : Int64).toInt ∨
      value.toInt = (1 : Int64).toInt := by
    have hminus : (-1 : Int64).toInt = -1 := by decide
    have hzero : (0 : Int64).toInt = 0 := by decide
    have hone : (1 : Int64).toInt = 1 := by decide
    omega
  rw [Int64.toInt_inj, Int64.toInt_inj, Int64.toInt_inj] at hcases
  simpa using hcases

theorem totals_of_duality (hrule : t.rule = .duality) (hcomplete : t.Complete limits)
    (htwelve : t.literal.dice.sides.val = 12)
    (hfaces : ∀ face ∈ t.faces, 1 ≤ face.toInt ∧ face.toInt ≤ t.sides.toInt) :
    Rule.duality.Totals t.literal.dice t.roll := by
  obtain ⟨_, literal, faces, _⟩ := t
  obtain rfl : _ = Rule.duality := hrule
  have hlength : faces.length = 2 * literal.dice.count.val := hcomplete
  have hbetween : ∀ face ∈ faces, 1 ≤ face.toInt ∧ face.toInt ≤ 12 := by
    intro face hface
    have hsides : literal.dice.sides.toInt64.toInt = 12 := by
      rw [Quantity.toInt_toInt64]
      exact_mod_cast htwelve
    rw [← hsides]
    exact hfaces face hface
  have hbound : (faces.length : Int) * 12 ≤ 9223372036854775807 := by
    have hle := literal.dice.count.le
    omega
  have hexact := sumsExactly_of_between hbetween (by decide) (by decide) hbound
  obtain ⟨hle, hge⟩ := sum_between hbetween
  rw [← hexact.exact, hlength] at hle hge
  refine ⟨hexact, ?_, ?_⟩
  · show (2 * literal.dice.count.val : Int) ≤ faces.sum.toInt
    push_cast at hle
    omega
  · show faces.sum.toInt ≤ (24 * literal.dice.count.val : Int)
    push_cast at hge
    omega

end Throw

/-! ## Groups of a text -/

theorem Token.fixedSides_of_scan {text : String} {tokens : List Token} {literal : Literal}
    (hscan : Token.scan text = .ok tokens) (hmem : .dice literal ∈ tokens) :
    literal.dice.kind = .standard ∨ literal.dice.kind.fixedSides? = some literal.dice.sides := by
  obtain ⟨words, hlexes⟩ := Token.scanFrom_eq_ok_iff.mp hscan
  obtain ⟨word, -, -, hread⟩ := hlexes.exists_word_of_dice hmem
  exact Literal.fixedSides_of_readDice hread

namespace Rule

variable {rule : Rule} {limits : Limits} {dice : Dice}

/-- A tag of duality dice has twelve faces. -/
theorem sides_of_handles (h : duality.handles dice.kind = true)
    (hfixed : dice.kind = .standard ∨ dice.kind.fixedSides? = some dice.sides) :
    dice.sides.val = 12 := by
  have hkind : dice.kind = .duality := by
    cases hkind : dice.kind with
    | duality => rfl
    | standard | fudge | factionAttack | factionDefense =>
        rw [hkind] at h
        cases h
  rw [hkind] at hfixed
  rcases hfixed with hstandard | hsides
  · cases hstandard
  · rw [← Option.some_inj.mp hsides]

/-- **The sums of a group fit.** The default limits have room for all of them. Under limits that
have, a rule that has accepted a group of a text rolls it, or fails because the source does. If the
source gives no face that the dice have not, nothing is lost in the total that is rolled: it is the
sum of what is kept, and no less and no more than the dice allow. -/
theorem totals_of_scan : Limits.SumsFit {} ∧
    ∀ {limits : Limits} {text : String} {tokens : List Token} {literal : Literal} {rule : Rule},
      limits.SumsFit → Token.scan text = .ok tokens → .dice literal ∈ tokens →
      rule.handles literal.dice.kind = true → rule.check limits literal.dice = .ok () →
      ∀ {σ : Type} (source : Source σ), source.InRange → ∀ s : σ,
        (∃ roll s', rule.roll limits source literal s = (.ok roll, s') ∧
          rule.Totals literal.dice roll) ∨
        ∃ e s' sides, source.Answers ⟨sides, .error e⟩ ∧
          rule.roll limits source literal s = (.error e, s') := by
  refine ⟨by decide, ?_⟩
  intro limits text tokens literal rule hlimits hscan hmem hhandles hcheck σ source hsource s
  rcases exists_throw_or_failure hcheck source s with
    ⟨t, s', rfl, rfl, hcomplete, hanswers, hroll⟩ | ⟨e, s', sides, hanswers, hroll⟩
  · left
    have hfaces := Throw.faces_between hsource hanswers
    obtain ⟨hcount, hsides⟩ := check_eq_ok_iff.mp hcheck
    refine ⟨t.roll, s', hroll, ?_⟩
    cases hrule : t.rule with
    | standard =>
        rw [hrule] at hsides
        exact Throw.totals_of_standard hrule hcomplete hlimits hcount (hsides (.inl rfl)) hfaces
    | fudge => exact Throw.totals_of_fudge hrule hcomplete hfaces
    | duality =>
        rw [hrule] at hhandles
        have htwelve := sides_of_handles hhandles (Token.fixedSides_of_scan hscan hmem)
        exact Throw.totals_of_duality hrule hcomplete htwelve hfaces
    | faction =>
        obtain ⟨_, literal, faces, _⟩ := t
        obtain rfl : _ = Rule.faction := hrule
        rfl
  · exact .inr ⟨e, s', sides, hanswers, hroll⟩

/-- `3d6!kh2` under the default limits. The source gives the highest face once and then ones, so the
first die explodes: of the four draws the highest two are kept. -/
theorem totals_of_scan_keep :
    let source : Source Bool := ⟨fun sides first => (.ok (if first then sides else 1), false)⟩
    let dice : Dice := ⟨⟨3, by decide, by decide⟩, ⟨6, by decide, by decide⟩, .standard, true,
      some ⟨.keep, .high, ⟨2, by decide, by decide⟩⟩⟩
    source.InRange ∧ Token.scan "3d6!kh2" = .ok [.dice ⟨"3d6!kh2", dice⟩] ∧
      ∃ roll s', standard.roll {} source ⟨"3d6!kh2", dice⟩ true = (.ok roll, s') ∧
        standard.Totals dice roll := by
  intro source dice
  have hsource : source.InRange := by
    intro sides first face hsides hface
    have hone : (1 : Int64).toInt = 1 := by decide
    cases first with
    | true =>
        obtain rfl : sides = face := Except.ok.inj hface
        exact ⟨hsides, le_refl _⟩
    | false =>
        obtain rfl : 1 = face := Except.ok.inj hface
        rw [hone]
        exact ⟨le_refl _, hsides⟩
  have hscan : Token.scan "3d6!kh2" = .ok [.dice ⟨"3d6!kh2", dice⟩] := by decide +kernel
  have hcheck : standard.check {} dice = .ok () := rfl
  refine ⟨hsource, hscan, ?_⟩
  rcases totals_of_scan.2 totals_of_scan.1 hscan List.mem_cons_self rfl hcheck source hsource
    true with hrolled | ⟨e, s', sides, ⟨first, hfails⟩, -⟩
  · exact hrolled
  · cases hfails

end Rule

end DiceNotation
