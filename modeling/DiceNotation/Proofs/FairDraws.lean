import DiceNotation.Proofs.WordProducts

/-!
# Fair draws

A draw takes words until one is accepted, and a zero always is, so it ends on every stream that ends
in zeros. One word gives each face equally often, and a rejected word leaves the draw where it was.
So by induction on the length of a run of words each face ends equally many of the runs, and what no
face ends are the runs of rejected words.
-/

namespace DiceNotation.Words

/-! ## The words of a draw -/

/-- The words to come: the pending ones, then zeros. -/
def upcoming (words : Words) (n : Nat) : UInt64 :=
  words.pending[n]?.getD 0

def skip (words : Words) (count : Nat) : Words :=
  ⟨words.pending.drop count, words.used + count⟩

theorem skip_cons (word : UInt64) (pending : List UInt64) (used count : Nat) :
    (⟨word :: pending, used⟩ : Words).skip (count + 1) =
      (⟨pending, used + 1⟩ : Words).skip count := by
  simp only [skip, List.drop_succ_cons, Nat.add_assoc, Nat.add_comm 1]

/-- The states of a generator stand for the streams that end in zeros. -/
theorem exists_upcoming_eq_iff {stream : Nat → UInt64} :
    (∃ words : Words, words.upcoming = stream) ↔ ∃ n, ∀ m, n ≤ m → stream m = 0 := by
  constructor
  · rintro ⟨words, rfl⟩
    refine ⟨words.pending.length, fun m hm => ?_⟩
    rw [upcoming, List.getElem?_eq_none hm]
    rfl
  · rintro ⟨n, hzero⟩
    refine ⟨ofList ((List.range n).map stream), ?_⟩
    funext m
    rcases Nat.lt_or_ge m n with hlt | hle
    · simp [upcoming, ofList, hlt]
    · simp [upcoming, ofList, hle, hzero m hle]

theorem isLeast_zero {p : Nat → Prop} (h : p 0) : IsLeast {n | p n} 0 :=
  ⟨h, fun n _ => Nat.zero_le n⟩

theorem isLeast_add_one {p : Nat → Prop} {first : Nat} (hzero : ¬ p 0)
    (h : IsLeast {n | p (n + 1)} first) : IsLeast {n | p n} (first + 1) := by
  refine ⟨h.1, fun n hn => ?_⟩
  cases n with
  | zero => exact absurd hn hzero
  | succ n => exact Nat.succ_le_succ (h.2 hn)

/-- The draw takes the words up to the first accepted one, and no other. -/
theorem exists_drawFrom {sides : Nat} (hpos : 0 < sides) (words : Words) :
    ∃ first, IsLeast {n | accepts sides (words.upcoming n) = true} first ∧
      drawFrom sides words.used words.pending =
        (faceOf sides (words.upcoming first), words.skip (first + 1)) := by
  obtain ⟨pending, used⟩ := words
  induction pending generalizing used with
  | nil =>
      refine ⟨0, isLeast_zero (accepts_zero hpos), rfl⟩
  | cons word pending ih =>
      by_cases haccepts : accepts sides word = true
      · refine ⟨0, isLeast_zero haccepts, ?_⟩
        rw [drawFrom, if_pos haccepts]
        rfl
      · obtain ⟨first, hleast, hdraw⟩ := ih (used + 1)
        refine ⟨first + 1, isLeast_add_one haccepts hleast, ?_⟩
        rw [drawFrom, if_neg haccepts, skip_cons]
        exact hdraw

/-! ## Runs of words -/

section Runs

variable {sides : Nat}

/-- The draw uses zeros only if none of the words is accepted. -/
theorem drawFrom_within_iff (used : Nat) (words : List UInt64) (face : Nat) :
    (drawFrom sides used words).1 = face ∧
        (drawFrom sides used words).2.used ≤ used + words.length ↔
      (words.find? (accepts sides)).map (faceOf sides) = some face := by
  induction words generalizing used with
  | nil => simp [drawFrom]
  | cons word words ih =>
      by_cases haccepts : accepts sides word = true
      · simp [drawFrom, haccepts]
      · rw [drawFrom, if_neg haccepts, List.find?_cons_of_neg haccepts, ← ih (used + 1),
          List.length_cons, Nat.add_right_comm, Nat.add_assoc used]

/-- The runs of so many words that end on a face. -/
def runsTo (sides n face : Nat) : Set (List UInt64) :=
  {words | words.length = n ∧ (words.find? (accepts sides)).map (faceOf sides) = some face}

theorem ncard_image2_cons (first : Set UInt64) (rest : Set (List UInt64)) :
    (Set.image2 List.cons first rest).ncard = first.ncard * rest.ncard := by
  have hinjective : Function.Injective fun run : UInt64 × List UInt64 => run.1 :: run.2 := by
    rintro ⟨word, words⟩ ⟨word', words'⟩ h
    obtain ⟨rfl, rfl⟩ := List.cons.inj h
    rfl
  rw [← Set.image_prod, Set.ncard_image_of_injective _ hinjective, Set.ncard_prod]

theorem card_word : Nat.card UInt64 = 2 ^ 64 := by
  rw [Nat.card_eq_fintype_card, ← FinEnum.card_eq_fintypeCard, FinEnum.card_UInt64]

theorem ncard_runs (n : Nat) : {words : List UInt64 | words.length = n}.ncard = (2 ^ 64) ^ n := by
  have hvectors : Nat.card (List.Vector UInt64 n) = (2 ^ 64) ^ n := by
    rw [Nat.card_eq_fintype_card, card_vector, ← Nat.card_eq_fintype_card, card_word]
  exact hvectors

/-- A run ends on a face with its first word, or that is rejected and the rest ends on the face. -/
theorem runsTo_add_one (sides n face : Nat) :
    runsTo sides (n + 1) face =
      Set.image2 List.cons {word | accepts sides word = true ∧ faceOf sides word = face}
          {words | words.length = n} ∪
        Set.image2 List.cons {word | ¬ accepts sides word = true} (runsTo sides n face) := by
  ext words
  cases words with
  | nil => simp [runsTo]
  | cons word words =>
      by_cases haccepts : accepts sides word = true
      · simp [runsTo, haccepts, and_comm]
      · simp [runsTo, haccepts]

theorem ncard_runsTo_add_one (sides n face : Nat) :
    (runsTo sides (n + 1) face).ncard =
      {word | accepts sides word = true ∧ faceOf sides word = face}.ncard * (2 ^ 64) ^ n +
        {word | ¬ accepts sides word = true}.ncard * (runsTo sides n face).ncard := by
  have hruns : {words : List UInt64 | words.length = n}.Finite := List.finite_length_eq _ n
  have hends : (runsTo sides n face).Finite := hruns.subset fun words h => h.1
  have hdisjoint : Disjoint
      (Set.image2 List.cons {word | accepts sides word = true ∧ faceOf sides word = face}
        {words | words.length = n})
      (Set.image2 List.cons {word | ¬ accepts sides word = true} (runsTo sides n face)) := by
    rw [Set.disjoint_left]
    rintro _ ⟨word, ⟨haccepts, -⟩, words, -, rfl⟩ ⟨word', hrejects, words', -, h⟩
    obtain ⟨rfl, -⟩ := List.cons.inj h
    exact hrejects haccepts
  rw [runsTo_add_one, Set.ncard_union_eq hdisjoint ((Set.toFinite _).image2 _ hruns)
    ((Set.toFinite _).image2 _ hends), ncard_image2_cons, ncard_image2_cons, ncard_runs]

theorem ncard_rejected (hpos : 0 < sides) (hlt : sides < 2 ^ 64) :
    {word | ¬ accepts sides word = true}.ncard + sides * 2 ^ (63 - sides.log2) = 2 ^ 64 := by
  rw [← ncard_accepted hpos hlt, Nat.add_comm, ← card_word]
  exact Set.ncard_add_ncard_compl _

/-- The faces share evenly all runs but those of rejected words. -/
theorem ncard_runsTo (hpos : 0 < sides) (hlt : sides < 2 ^ 64) (n : Nat) {face : Nat}
    (hone : 1 ≤ face) (hle : face ≤ sides) :
    sides * (runsTo sides n face).ncard + {word | ¬ accepts sides word = true}.ncard ^ n =
      (2 ^ 64) ^ n := by
  induction n with
  | zero =>
      have hnone : runsTo sides 0 face = ∅ := by
        ext words
        simp +contextual [runsTo]
      simp [hnone]
  | succ n ih =>
      have hrejected := ncard_rejected hpos hlt
      rw [ncard_runsTo_add_one, ncard_words hpos hlt hone hle]
      -- the face itself is gone from the count, only the number of faces is left
      generalize {word | ¬ accepts sides word = true}.ncard = rejected at *
      calc sides * (2 ^ (63 - sides.log2) * (2 ^ 64) ^ n + rejected * (runsTo sides n face).ncard) +
            rejected ^ (n + 1)
          = sides * 2 ^ (63 - sides.log2) * (2 ^ 64) ^ n +
              rejected * (sides * (runsTo sides n face).ncard + rejected ^ n) := by ring
        _ = (rejected + sides * 2 ^ (63 - sides.log2)) * (2 ^ 64) ^ n := by rw [ih]; ring
        _ = (2 ^ 64) ^ (n + 1) := by rw [hrejected, pow_succ' (2 ^ 64)]

end Runs

/-! ## Numbers of sides of 64 bits -/

/-- The lower half of the product does not go beyond the zone. -/
def Accepted (sides : Int64) (word : UInt64) : Prop :=
  lower sides.toUInt64 word ≤ zone sides.toUInt64

instance (sides : Int64) (word : UInt64) : Decidable (Accepted sides word) :=
  inferInstanceAs (Decidable (_ ≤ _))

def faceFrom (sides : Int64) (word : UInt64) : Int64 :=
  1 + (upper sides.toUInt64 word).toInt64

/-- A draw from these words ends on the face before they are used up. -/
def Settles (sides : Int64) (words : List UInt64) (face : Int64) : Prop :=
  (source.draw sides (ofList words)).1 = .ok face ∧
    (source.draw sides (ofList words)).2.used ≤ words.length

section Sides

variable {sides face : Int64}

theorem one_le_toNat (h : 1 ≤ sides) : 1 ≤ sides.toInt.toNat := by
  have hint : (1 : Int) ≤ sides.toInt := Int64.le_iff_toInt_le.mp h
  omega

theorem toNat_le_toNat (h : face ≤ sides) : face.toInt.toNat ≤ sides.toInt.toNat :=
  Int.toNat_le_toNat (Int64.le_iff_toInt_le.mp h)

theorem toNat_toUInt64 (h : 1 ≤ sides) : sides.toUInt64.toNat = sides.toInt.toNat :=
  Int64.toNat_toUInt64_of_le (Int64.le_trans (by decide) h)

theorem toUInt64_ne_zero (h : 1 ≤ sides) : sides.toUInt64 ≠ 0 := by
  have hone := one_le_toNat h
  intro hzero
  rw [← toNat_toUInt64 h, hzero] at hone
  exact absurd hone (by decide)

theorem accepted_iff (h : 1 ≤ sides) (word : UInt64) :
    Accepted sides word ↔ accepts sides.toInt.toNat word = true := by
  rw [Accepted, ← accepts_iff_lower_le (toUInt64_ne_zero h), toNat_toUInt64 h]

theorem faceFrom_eq (h : 1 ≤ sides) (word : UInt64) :
    faceFrom sides word = Int64.ofNat (faceOf sides.toInt.toNat word) := by
  have hupper : (upper sides.toUInt64 word).toInt64 =
      Int64.ofNat (word.toNat * sides.toInt.toNat / 2 ^ 64) := by
    rw [← toNat_toUInt64 h, ← toNat_upper, ← UInt64.toInt64_ofNat', UInt64.ofNat_toNat]
  rw [faceFrom, hupper, faceOf, Int64.ofNat_add]
  rfl

theorem toInt_faceFrom (h : 1 ≤ sides) (word : UInt64) :
    (faceFrom sides word).toInt = faceOf sides.toInt.toNat word := by
  have hle := faceOf_le (one_le_toNat h) word
  have hlt := sides.toInt_lt
  rw [faceFrom_eq h]
  exact Int64.toInt_ofNat_of_lt (by omega)

theorem one_le_faceFrom (h : 1 ≤ sides) (word : UInt64) : 1 ≤ faceFrom sides word := by
  rw [Int64.le_iff_toInt_le, toInt_faceFrom h]
  exact Int.ofNat_le.mpr (one_le_faceOf word)

theorem faceFrom_le (h : 1 ≤ sides) (word : UInt64) : faceFrom sides word ≤ sides := by
  have hle := faceOf_le (one_le_toNat h) word
  have hpos := one_le_toNat h
  rw [Int64.le_iff_toInt_le, toInt_faceFrom h]
  omega

theorem faceFrom_eq_iff (h : 1 ≤ sides) (hface : 1 ≤ face) (word : UInt64) :
    faceFrom sides word = face ↔ faceOf sides.toInt.toNat word = face.toInt.toNat := by
  have hone := one_le_toNat hface
  rw [← Int64.toInt_inj, toInt_faceFrom h]
  omega

theorem draw_eq (h : 1 ≤ sides) (words : Words) :
    source.draw sides words =
      (.ok (Int64.ofNat (drawFrom sides.toInt.toNat words.used words.pending).1),
        (drawFrom sides.toInt.toNat words.used words.pending).2) :=
  if_neg (Int64.not_lt.mpr h)

theorem exists_draw (h : 1 ≤ sides) (words : Words) :
    ∃ first, IsLeast {n | Accepted sides (words.upcoming n)} first ∧
      source.draw sides words =
        (.ok (faceFrom sides (words.upcoming first)), words.skip (first + 1)) := by
  obtain ⟨first, hleast, hdraw⟩ := exists_drawFrom (one_le_toNat h) words
  simp only [accepted_iff h]
  refine ⟨first, hleast, ?_⟩
  rw [draw_eq h, hdraw, faceFrom_eq h]

theorem settles_iff (h : 1 ≤ sides) (hface : 1 ≤ face) (words : List UInt64) :
    Settles sides words face ↔
      (words.find? (accepts sides.toInt.toNat)).map (faceOf sides.toInt.toNat) =
        some face.toInt.toNat := by
  obtain ⟨first, -, hdraw⟩ := exists_drawFrom (one_le_toNat h) (ofList words)
  rw [← drawFrom_within_iff 0, Nat.zero_add, Settles, draw_eq h, Except.ok.injEq]
  refine and_congr_left' ?_
  rw [hdraw, ← faceFrom_eq h, faceFrom_eq_iff h hface]
  exact Eq.congr_left (congrArg Prod.fst hdraw).symm

end Sides

/-- **Draws are in range and fair.** A number of sides below 1 is refused, and no word is used. With
any other number the draw ends on every stream of words that is zero from some place on: it answers
with the face of the first accepted word, which is a face of the die, and has used the words up to
this one and no more. Of the `2 ^ 64` words each face is given by two to the number of leading
zeros, and all others are rejected. Of the runs of `n` words each face ends equally many, and
together they end all but the runs of rejected words. -/
theorem draw_fair (sides : Int64) :
    (sides < 1 → ∃ e : Error, e.kind = .input ∧
      ∀ words : Words, source.draw sides words = (.error e, words)) ∧
    (1 ≤ sides →
      (∀ stream : Nat → UInt64, (∃ n, ∀ m, n ≤ m → stream m = 0) →
        (∃ words : Words, words.upcoming = stream) ∧
        ∃ first, IsLeast {n | Accepted sides (stream n)} first ∧
          1 ≤ faceFrom sides (stream first) ∧ faceFrom sides (stream first) ≤ sides ∧
          ∀ words : Words, words.upcoming = stream →
            source.draw sides words =
              (.ok (faceFrom sides (stream first)), words.skip (first + 1))) ∧
      (∀ face, 1 ≤ face → face ≤ sides →
        {word | Accepted sides word ∧ faceFrom sides word = face}.ncard =
          2 ^ (leadingZeros sides.toUInt64).toNat) ∧
      {word | ¬ Accepted sides word}.ncard +
          sides.toInt.toNat * 2 ^ (leadingZeros sides.toUInt64).toNat = 2 ^ 64 ∧
      ∀ n face, 1 ≤ face → face ≤ sides →
        sides.toInt.toNat * {words | words.length = n ∧ Settles sides words face}.ncard +
          {word | ¬ Accepted sides word}.ncard ^ n = (2 ^ 64) ^ n) := by
  constructor
  · intro hnone
    exact ⟨.source .noSides, rfl, fun words => if_pos hnone⟩
  intro h
  have hpos := one_le_toNat h
  have hlt : sides.toInt.toNat < 2 ^ 64 := toNat_toUInt64 h ▸ sides.toUInt64.toNat_lt
  have hzeros : (leadingZeros sides.toUInt64).toNat = 63 - sides.toInt.toNat.log2 := by
    rw [toNat_leadingZeros (toUInt64_ne_zero h), toNat_toUInt64 h]
  refine ⟨?_, ?_, ?_, ?_⟩
  · intro stream hstream
    have hwords := exists_upcoming_eq_iff.mpr hstream
    refine ⟨hwords, ?_⟩
    obtain ⟨words, rfl⟩ := hwords
    obtain ⟨first, hleast, -⟩ := exists_draw h words
    refine ⟨first, hleast, one_le_faceFrom h _, faceFrom_le h _, ?_⟩
    intro words' hsame
    -- two states of one stream have the same first accepted word
    obtain ⟨first', hleast', hanswer⟩ := exists_draw h words'
    rw [hsame] at hleast' hanswer
    obtain rfl := hleast.unique hleast'
    exact hanswer
  · intro face hone hle
    simp only [hzeros, accepted_iff h, faceFrom_eq_iff h hone]
    exact ncard_words hpos hlt (one_le_toNat hone) (toNat_le_toNat hle)
  · simp only [hzeros, accepted_iff h]
    exact ncard_rejected hpos hlt
  · intro n face hone hle
    simp only [accepted_iff h, settles_iff h hone]
    exact ncard_runsTo hpos hlt n (one_le_toNat hone) (toNat_le_toNat hle)

/-- The largest number of sides has one leading zero: every face has two words, and two words are
rejected. A stream that begins with these two takes a third one, here for the highest face. A die
without sides leaves the same words untouched. -/
theorem draw_fair_largest :
    let words : Words := ⟨[2, 9223372036854775809, 18446744073709551615, 5], 0⟩
    (∃ e : Error, e.kind = .input ∧ source.draw 0 words = (.error e, words)) ∧
    source.draw Int64.maxValue words = (.ok Int64.maxValue, ⟨[5], 3⟩) ∧
    {word | Accepted Int64.maxValue word ∧ faceFrom Int64.maxValue word = 7}.ncard = 2 ∧
    {word | ¬ Accepted Int64.maxValue word}.ncard = 2 ∧
    (2 ^ 63 - 1) * {words | words.length = 3 ∧ Settles Int64.maxValue words 7}.ncard + 2 ^ 3 =
      2 ^ 192 := by
  intro words
  obtain ⟨e, hkind, hrefused⟩ := (draw_fair 0).1 (by decide)
  obtain ⟨-, hsides⟩ := draw_fair Int64.maxValue
  obtain ⟨hdraw, hwords, hrejected, hruns⟩ := hsides (by decide)
  have hzeros : 2 ^ (leadingZeros Int64.maxValue.toUInt64).toNat = 2 := by decide
  have hnumber : Int64.maxValue.toInt.toNat = 2 ^ 63 - 1 := by decide
  rw [hzeros] at hwords hrejected
  have htwo : {word | ¬ Accepted Int64.maxValue word}.ncard = 2 := by omega
  refine ⟨⟨e, hkind, hrefused words⟩, ?_, hwords 7 (by decide) (by decide), htwo, ?_⟩
  · obtain ⟨-, first, hleast, -, -, hanswer⟩ :=
      hdraw words.upcoming (exists_upcoming_eq_iff.mp ⟨words, rfl⟩)
    have hthird : IsLeast {n | Accepted Int64.maxValue (words.upcoming n)} 2 := by
      apply isLeast_add_one (by decide +kernel)
      apply isLeast_add_one (by decide +kernel)
      exact isLeast_zero (by decide +kernel)
    obtain rfl := hleast.unique hthird
    have hface : faceFrom Int64.maxValue (words.upcoming 2) = Int64.maxValue := by decide +kernel
    have hdrawn := hanswer words rfl
    rw [hface] at hdrawn
    exact hdrawn
  · have hthree := hruns 3 7 (by decide) (by decide)
    rw [htwo, hnumber, ← Nat.pow_mul] at hthree
    exact hthree

end DiceNotation.Words
