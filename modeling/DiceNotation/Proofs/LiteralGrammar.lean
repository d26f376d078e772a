import DiceNotation.Proofs.LiteralAgreement

/-!
# The grammar of literals

The reader accepts the texts that spell a group and no others. Among the texts of a group is its
canonical one. No number in it begins with zero, so the scanner takes it whole, and both give the
group back.
-/

namespace DiceNotation

namespace Numeral

variable {n : Nat}

/-- The numeral of a positive number does not begin with zero. -/
theorem head?_ofNat (hn : 0 < n) : (ofNat n).head? ≠ some '0' := by
  have hdigits : ∀ d < 10, 0 < d → Nat.digitChar d ≠ '0' := by decide
  induction n using Nat.strongRecOn with
  | ind n ih =>
      rw [ofNat, Nat.toDigits_eq_if (by decide)]
      split
      next hlt =>
        intro hzero
        exact hdigits n hlt hn (Option.some_inj.mp hzero)
      next hge =>
        have hfront := ih (n / 10) (by omega) (by omega)
        rwa [List.head?_append_of_ne_nil _ Nat.toDigits_ne_nil]

theorem ofNat_mem_positive (hn : 0 < n) : ofNat n ∈ Pattern.positive.matches' := by
  obtain ⟨hnumber, -⟩ := read?_eq_some_iff.mp (read?_ofNat n)
  rw [← unpadded_of_mem_number hnumber, unpadded_of_digits (Pattern.mem_number.mp hnumber).2]
  exact head?_ofNat hn

end Numeral

/-! ## The canonical text -/

theorem DiceKind.mem_tagged_of_fixedSides? {kind : DiceKind} {sides : Quantity}
    (h : kind.fixedSides? = some sides) : kind ∈ tagged := by
  cases kind with
  | standard => cases h
  | _ => decide

namespace Selection

theorem writtenAs_render (s : Selection) : s.WrittenAs s.render := by
  have hmode : ∀ mode : Mode, mode.letter.toLower = mode.letter := by
    intro mode
    cases mode <;> decide
  have hdirection : ∀ direction : Direction, direction.letter.toLower = direction.letter := by
    intro direction
    cases direction <;> decide
  exact .directed (hmode s.mode) (hdirection s.direction) (Quantity.writtenAs_ofNat s.amount)

theorem mem_selection_render (s : Selection) : s.render ∈ Pattern.selection.matches' := by
  obtain ⟨mode, direction, amount⟩ := s
  refine Pattern.mem_selection.mpr ⟨mode.letter, [direction.letter], Numeral.ofNat amount.val, rfl,
    ?_, .inr ⟨direction.letter, rfl, ?_⟩, Numeral.ofNat_mem_positive amount.pos⟩
  · cases mode <;> decide
  · cases direction <;> decide

end Selection

namespace Dice

open Lexeme

variable {dice : Dice}

/-- A tag has its own number of faces. Standard dice have any number of them. -/
def HasFixedSides (dice : Dice) : Prop :=
  dice.kind = .standard ∨ dice.kind.fixedSides? = some dice.sides

/-- The parts of the canonical text. -/
def parts (dice : Dice) : DiceParts where
  count := Numeral.ofNat dice.count.val
  delimiter := 'd'
  sides := dice.renderSides
  bang := if dice.explode then ['!'] else []
  selection := (dice.selection?.map Selection.render).getD []

theorem text_parts (dice : Dice) : dice.parts.text = dice.render := by
  simp [DiceParts.text, parts, render]

theorem renderSides_of_standard (h : dice.kind = .standard) :
    dice.renderSides = Numeral.ofNat dice.sides.val := by
  rw [renderSides, h]

theorem renderSides_of_mem_tagged (h : dice.kind ∈ DiceKind.tagged) :
    dice.renderSides = dice.kind.tag := by
  unfold renderSides
  split
  next hkind =>
    rw [hkind] at h
    exact absurd h (by decide)
  next => rfl

theorem writtenAs_renderSides (h : dice.HasFixedSides) :
    dice.kind.WrittenAs dice.sides dice.renderSides := by
  rcases h with hstandard | hfixed
  · rw [renderSides_of_standard hstandard, hstandard]
    exact .number (Quantity.writtenAs_ofNat dice.sides)
  · have hkind := DiceKind.mem_tagged_of_fixedSides? hfixed
    rw [renderSides_of_mem_tagged hkind]
    exact .tag (DiceKind.row_iff.mpr ⟨hkind, rfl, hfixed⟩)

theorem mem_sides_renderSides (h : dice.HasFixedSides) :
    dice.renderSides ∈ Pattern.sides.matches' := by
  rcases h with hstandard | hfixed
  · rw [renderSides_of_standard hstandard]
    exact Pattern.mem_sides.mpr (.inl (Numeral.ofNat_mem_positive dice.sides.pos))
  · have hkind := DiceKind.mem_tagged_of_fixedSides? hfixed
    rw [renderSides_of_mem_tagged hkind]
    have hnamed := Pattern.mem_namedSides.mpr (.inr ⟨dice.kind, hkind, rfl⟩)
    exact Pattern.mem_sides.mpr (.inr hnamed)

theorem spells_parts (h : dice.HasFixedSides) : dice.parts.Spells dice where
  count := .inr (Quantity.writtenAs_ofNat dice.count)
  delimiter := .inl rfl
  sides := writtenAs_renderSides h
  bang := rfl
  selection := by
    simp only [parts]
    cases dice.selection? with
    | none => exact .inl ⟨rfl, rfl⟩
    | some s => exact .inr ⟨s, rfl, s.writtenAs_render⟩

theorem wellFormed_parts (h : dice.HasFixedSides) : dice.parts.WellFormed where
  count := .inr (Numeral.ofNat_mem_positive dice.count.pos)
  delimiter := rfl
  sides := mem_sides_renderSides h
  bang := by
    simp only [parts]
    cases dice.explode with
    | true => exact .inr rfl
    | false => exact .inl rfl
  selection := by
    simp only [parts]
    cases dice.selection? with
    | none => exact .inl rfl
    | some s => exact .inr s.mem_selection_render

end Dice

/-! ## Reading -/

namespace Literal

open Lexeme

/-- The canonical text of a group gives the group back. -/
theorem readDice_render {dice : Dice} (h : dice.HasFixedSides) :
    readDice dice.render = .ok dice :=
  readDice_eq_ok_iff_spells.mpr ⟨dice.parts, dice.text_parts, Dice.spells_parts h⟩

theorem read_eq_ok_iff_spells {text : String} {literal : Literal} :
    read text = .ok literal ↔ literal.text = text ∧
      ∃ parts : DiceParts, parts.text = text.toList ∧ parts.Spells literal.dice := by
  obtain ⟨written, dice⟩ := literal
  rw [← readDice_eq_ok_iff_spells]
  constructor
  · intro h
    obtain rfl : written = text := by
      unfold read at h
      cases hdice : readDice text.toList with
      | error e =>
          rw [hdice] at h
          cases h
      | ok group =>
          rw [hdice] at h
          cases h
          rfl
    exact ⟨rfl, read_eq_ok_iff.mp h⟩
  · rintro ⟨rfl, hread⟩
    exact read_eq_ok_iff.mpr hread

/-- **The reader accepts its grammar and inverts printing.** A text is read exactly if it is made of
parts that spell a group, and then as this group. The canonical text of a group, whose faces are free
for standard dice and fixed by the tag for all others, is read as the group and scanned as it. -/
theorem read_grammar :
    (∀ (text : String) (literal : Literal), read text = .ok literal ↔ literal.text = text ∧
      ∃ parts : DiceParts, parts.text = text.toList ∧ parts.Spells literal.dice) ∧
    ∀ dice : Dice, dice.HasFixedSides →
      read (String.ofList dice.render) = .ok ⟨String.ofList dice.render, dice⟩ ∧
      Token.scan (String.ofList dice.render) =
        .ok [.dice ⟨String.ofList dice.render, dice⟩] := by
  refine ⟨fun text literal => read_eq_ok_iff_spells, fun dice h => ?_⟩
  have hread : readDice (String.ofList dice.render).toList = .ok dice := by
    rw [String.toList_ofList, readDice_render h]
  have hmatched : Kind.Matches .dice (String.ofList dice.render).toList := by
    rw [String.toList_ofList, ← dice.text_parts]
    exact DiceParts.mem_dice_iff.mpr ⟨dice.parts, Dice.wellFormed_parts h, rfl⟩
  exact ⟨read_eq_ok_iff.mpr hread, Token.scan_eq_dice_iff.mpr ⟨hread, hmatched⟩⟩

/-- Zeros in front, an upper-case delimiter, a number beyond the largest quantity and a selection
without a direction. -/
example : readDice "007D99999999999!D02".toList = .ok ⟨⟨7, by decide, by decide⟩,
    ⟨4294967295, by decide, by decide⟩, .standard, true,
    some ⟨.drop, .low, ⟨2, by decide, by decide⟩⟩⟩ := by
  decide +kernel

end Literal

end DiceNotation
