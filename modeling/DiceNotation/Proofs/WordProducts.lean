import DiceNotation.Source.Words
import Mathlib

/-!
# Faces of words

The product of a word and the number of sides is two words long: the upper one is the face, counted
from zero, and the lower one decides whether the word is accepted. So each face has a stretch of
`2 ^ 64` numbers, and an accepted product is a multiple of the number of sides in the first part of
the stretch. This part is the number of sides times a power of two long. Wherever it begins, it
holds as many multiples as this power says, one for each of as many words in a row.
-/

namespace DiceNotation.Words

/-! ## Counting words -/

section Counting

variable {sides : Nat}

theorem bound_eq (sides : Nat) : bound sides = sides * 2 ^ (63 - sides.log2) :=
  Nat.shiftLeft_eq _ _

theorem bound_pos (hpos : 0 < sides) : 0 < bound sides := by
  rw [bound_eq]
  exact Nat.mul_pos hpos (Nat.two_pow_pos _)

/-- The shift moves the highest bit of the number to the top of the word and not out of it. -/
theorem bound_lt (hpos : 0 < sides) (hlt : sides < 2 ^ 64) : bound sides < 2 ^ 64 := by
  have hlog : sides.log2 < 64 := (Nat.log2_lt hpos.ne').mpr hlt
  have hexp : sides.log2 + 1 + (63 - sides.log2) = 64 := by omega
  calc bound sides = sides * 2 ^ (63 - sides.log2) := bound_eq sides
    _ < 2 ^ (sides.log2 + 1) * 2 ^ (63 - sides.log2) :=
        Nat.mul_lt_mul_of_pos_right Nat.lt_log2_self (Nat.two_pow_pos _)
    _ = 2 ^ 64 := by rw [← Nat.pow_add, hexp]

theorem accepts_iff (word : UInt64) :
    accepts sides word = true ↔ word.toNat * sides % 2 ^ 64 < bound sides :=
  decide_eq_true_iff

theorem one_le_faceOf (word : UInt64) : 1 ≤ faceOf sides word :=
  Nat.le_add_right 1 _

theorem faceOf_le (hpos : 0 < sides) (word : UInt64) : faceOf sides word ≤ sides := by
  have hproduct : word.toNat * sides < 2 ^ 64 * sides :=
    Nat.mul_lt_mul_of_pos_right word.toNat_lt hpos
  have hupper : word.toNat * sides / 2 ^ 64 < sides := Nat.div_lt_of_lt_mul hproduct
  rw [faceOf, Nat.add_comm]
  exact hupper

/-- A word gives the face with so many faces before it if its product begins that face's stretch. -/
theorem accepts_and_faceOf_iff (hpos : 0 < sides) (hlt : sides < 2 ^ 64) (word : UInt64)
    (before : Nat) :
    accepts sides word = true ∧ faceOf sides word = before + 1 ↔
      before * 2 ^ 64 ≤ sides * word.toNat ∧
        sides * word.toNat < before * 2 ^ 64 + bound sides := by
  have hbound := bound_lt hpos hlt
  rw [accepts_iff, faceOf, UInt64.size, Nat.mul_comm word.toNat]
  omega

theorem ceilDiv_add_le_iff (hpos : 0 < sides) (start count n : Nat) :
    start ⌈/⌉ sides + count ≤ n ↔ start + sides * count ≤ sides * n := by
  rcases Nat.lt_or_ge n count with hlt | hle
  · have hmul : sides * n < sides * count := Nat.mul_lt_mul_of_pos_left hlt hpos
    omega
  · obtain ⟨rest, rfl⟩ := Nat.exists_eq_add_of_le' hle
    rw [Nat.add_le_add_iff_right, ceilDiv_le_iff_le_mul hpos, Nat.mul_add, Nat.add_le_add_iff_right]

/-- The words of one face stand in a row. -/
theorem toNat_image_words (hpos : 0 < sides) (hlt : sides < 2 ^ 64) {before : Nat}
    (hbefore : before < sides) :
    UInt64.toNat '' {word | accepts sides word = true ∧ faceOf sides word = before + 1} =
      Finset.Ico ((before * 2 ^ 64) ⌈/⌉ sides)
        ((before * 2 ^ 64) ⌈/⌉ sides + 2 ^ (63 - sides.log2)) := by
  have hbound := bound_lt hpos hlt
  have hstretch : (before + 1) * 2 ^ 64 ≤ sides * 2 ^ 64 := Nat.mul_le_mul_right _ hbefore
  ext n
  rw [Finset.mem_coe, Finset.mem_Ico, ceilDiv_le_iff_le_mul hpos, ← not_le (a := _ + _),
    ceilDiv_add_le_iff hpos, ← bound_eq, not_le]
  constructor
  · rintro ⟨word, hword, rfl⟩
    exact (accepts_and_faceOf_iff hpos hlt word before).mp hword
  · intro hn
    -- the stretches of all faces together end where the products of words end
    have hproduct : sides * n < sides * 2 ^ 64 := by omega
    have hword : (UInt64.ofNat n).toNat = n :=
      UInt64.toNat_ofNat_of_lt' (Nat.lt_of_mul_lt_mul_left hproduct)
    refine ⟨UInt64.ofNat n, (accepts_and_faceOf_iff hpos hlt _ before).mpr ?_, hword⟩
    rwa [hword]

theorem ncard_words (hpos : 0 < sides) (hlt : sides < 2 ^ 64) {face : Nat} (hone : 1 ≤ face)
    (hle : face ≤ sides) :
    {word | accepts sides word = true ∧ faceOf sides word = face}.ncard =
      2 ^ (63 - sides.log2) := by
  obtain ⟨before, rfl⟩ := Nat.exists_eq_add_of_le' hone
  have hinjective : Function.Injective UInt64.toNat := fun _ _ => UInt64.toNat_inj.mp
  rw [← Set.ncard_image_of_injective _ hinjective, toNat_image_words hpos hlt hle,
    Set.ncard_coe_finset, Nat.card_Ico, Nat.add_sub_cancel_left]

/-- Every accepted word belongs to one of the faces. -/
theorem ncard_accepted (hpos : 0 < sides) (hlt : sides < 2 ^ 64) :
    {word | accepts sides word = true}.ncard = sides * 2 ^ (63 - sides.log2) := by
  have hfaces : ∀ word, faceOf sides word ∈ Finset.Icc 1 sides := fun word =>
    Finset.mem_Icc.mpr ⟨one_le_faceOf word, faceOf_le hpos word⟩
  have hface : ∀ face ∈ Finset.Icc 1 sides,
      {word ∈ Finset.univ.filter (accepts sides · = true) | faceOf sides word = face}.card =
        2 ^ (63 - sides.log2) := by
    intro face hmem
    obtain ⟨hone, hle⟩ := Finset.mem_Icc.mp hmem
    rw [← ncard_words hpos hlt hone hle, Finset.filter_filter, ← Set.ncard_coe_finset]
    simp
  calc {word | accepts sides word = true}.ncard
      = (Finset.univ.filter (accepts sides · = true)).card := by
        rw [← Set.ncard_coe_finset]
        simp
    _ = ∑ face ∈ Finset.Icc 1 sides, 2 ^ (63 - sides.log2) := by
        rw [Finset.card_eq_sum_card_fiberwise fun word _ => hfaces word]
        exact Finset.sum_congr rfl hface
    _ = sides * 2 ^ (63 - sides.log2) := by simp

end Counting

/-! ## Machine words

A machine multiplies in 128 bits and finds the bound by shifting out the leading zeros. No bit is
lost on the way.
-/

def product (sides word : UInt64) : BitVec 128 :=
  word.toBitVec.setWidth 128 * sides.toBitVec.setWidth 128

def upper (sides word : UInt64) : UInt64 :=
  .ofBitVec ((product sides word >>> 64).setWidth 64)

def lower (sides word : UInt64) : UInt64 :=
  .ofBitVec ((product sides word).setWidth 64)

def leadingZeros (sides : UInt64) : UInt64 :=
  .ofBitVec sides.toBitVec.clz

/-- The greatest lower half of a product that is accepted. -/
def zone (sides : UInt64) : UInt64 :=
  (sides <<< leadingZeros sides) - 1

section Machine

variable {sides : UInt64}

theorem product_lt (sides word : UInt64) : word.toNat * sides.toNat < 2 ^ 64 * 2 ^ 64 :=
  Nat.mul_lt_mul'' word.toNat_lt sides.toNat_lt

theorem toNat_product (sides word : UInt64) :
    (product sides word).toNat = word.toNat * sides.toNat := by
  have hword : word.toNat < 2 ^ 128 := Nat.lt_trans word.toNat_lt (by decide)
  have hsides : sides.toNat < 2 ^ 128 := Nat.lt_trans sides.toNat_lt (by decide)
  rw [product, BitVec.toNat_mul, BitVec.toNat_setWidth, BitVec.toNat_setWidth,
    UInt64.toNat_toBitVec, UInt64.toNat_toBitVec, Nat.mod_eq_of_lt hword, Nat.mod_eq_of_lt hsides]
  exact Nat.mod_eq_of_lt (product_lt sides word)

theorem toNat_lower (sides word : UInt64) :
    (lower sides word).toNat = word.toNat * sides.toNat % 2 ^ 64 := by
  rw [lower, UInt64.toNat_ofBitVec, BitVec.toNat_setWidth, toNat_product]

theorem toNat_upper (sides word : UInt64) :
    (upper sides word).toNat = word.toNat * sides.toNat / 2 ^ 64 := by
  rw [upper, UInt64.toNat_ofBitVec, BitVec.toNat_setWidth, BitVec.toNat_ushiftRight, toNat_product,
    Nat.shiftRight_eq_div_pow, Nat.mod_eq_of_lt (Nat.div_lt_of_lt_mul (product_lt sides word))]

theorem toNat_leadingZeros (h : sides ≠ 0) :
    (leadingZeros sides).toNat = 63 - sides.toNat.log2 := by
  have hbits : sides.toBitVec ≠ 0 := fun hzero => h (UInt64.toBitVec_inj.mp hzero)
  have hupper := BitVec.toNat_lt_two_pow_sub_clz (x := sides.toBitVec)
  have hlower := BitVec.two_pow_sub_clz_le_toNat_of_ne_zero (by decide) hbits
  have hzeros : sides.toBitVec.clz.toNat < 64 := BitVec.clz_lt_iff_ne_zero.mpr hbits
  have hpos : sides.toNat ≠ 0 := fun hzero => h (UInt64.toNat_inj.mp hzero)
  have hlog : sides.toNat.log2 = 63 - sides.toBitVec.clz.toNat := by
    rw [Nat.log2_eq_iff hpos]
    refine ⟨hlower, ?_⟩
    rwa [show 63 - sides.toBitVec.clz.toNat + 1 = 64 - sides.toBitVec.clz.toNat by omega]
  rw [leadingZeros, UInt64.toNat_ofBitVec, hlog]
  omega

theorem toNat_zone (h : sides ≠ 0) : (zone sides).toNat + 1 = bound sides.toNat := by
  have hpos : 0 < sides.toNat := Nat.pos_of_ne_zero fun hzero => h (UInt64.toNat_inj.mp hzero)
  have hbound := bound_pos hpos
  have hshift : (sides <<< leadingZeros sides).toNat = bound sides.toNat := by
    rw [UInt64.toNat_shiftLeft, toNat_leadingZeros h, Nat.mod_eq_of_lt (by omega : 63 - _ < 64)]
    exact Nat.mod_eq_of_lt (bound_lt hpos sides.toNat_lt)
  have hone : 1 ≤ sides <<< leadingZeros sides := by
    rw [UInt64.le_iff_toNat_le, hshift]
    exact hbound
  rw [zone, UInt64.toNat_sub_of_le _ _ hone, hshift]
  exact Nat.sub_add_cancel hbound

theorem accepts_iff_lower_le (h : sides ≠ 0) (word : UInt64) :
    accepts sides.toNat word = true ↔ lower sides word ≤ zone sides := by
  rw [accepts_iff, UInt64.le_iff_toNat_le, toNat_lower, ← toNat_zone h, Nat.lt_add_one_iff]

end Machine

end DiceNotation.Words
