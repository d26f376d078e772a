import DiceNotation.Text.Blank
import Mathlib

/-!
# Trimming

Texts without the blanks at their ends: a second cut finds nothing, and folding letters does not
touch blanks.
-/

namespace DiceNotation

variable {c : Char}

theorem not_isBlank_of_isAlpha (h : c.isAlpha = true) : isBlank c = false := by
  have hletter : 65 ≤ c.toNat ∧ c.toNat ≤ 122 := by
    simp only [Char.isAlpha, Char.isUpper, Char.isLower, Bool.or_eq_true, Bool.and_eq_true,
      decide_eq_true_eq, ge_iff_le, UInt32.le_iff_toNat_le] at h
    show 65 ≤ c.val.toNat ∧ c.val.toNat ≤ 122
    simp only [Char.reduceVal, UInt32.reduceToNat] at h
    omega
  by_contra hblank
  simp only [isBlank, Bool.not_eq_false, Bool.or_eq_true, Bool.and_eq_true, decide_eq_true_eq,
    beq_iff_eq] at hblank
  omega

theorem isBlank_toLower (c : Char) : isBlank c.toLower = isBlank c := by
  by_cases halpha : c.isAlpha = true
  · have hlower : c.toLower.isAlpha = true := by rwa [Char.isAlpha_toLower_eq_isAlpha]
    rw [not_isBlank_of_isAlpha halpha, not_isBlank_of_isAlpha hlower]
  · have hupper : ¬ c.isUpper = true := by
      intro hupper
      exact halpha (by simp [Char.isAlpha, hupper])
    rw [Char.toLower_eq_of_not_isUpper hupper]

theorem map_toLower_map_toLower (text : List Char) :
    (text.map Char.toLower).map Char.toLower = text.map Char.toLower := by
  have hfold : Char.toLower ∘ Char.toLower = Char.toLower :=
    funext Char.toLower_toLower_eq_toLower
  rw [List.map_map, hfold]

theorem trimStart_map_toLower (text : List Char) :
    trimStart (text.map Char.toLower) = (trimStart text).map Char.toLower := by
  have hfold : isBlank ∘ Char.toLower = isBlank := funext isBlank_toLower
  rw [trimStart, trimStart, List.dropWhile_map, hfold]

/-- At its end a text is cut as the reversed text is at its start. -/
theorem trimEnd_map_toLower (text : List Char) :
    trimEnd (text.map Char.toLower) = (trimEnd text).map Char.toLower := by
  show (trimStart (text.map Char.toLower).reverse).reverse = _
  rw [← List.map_reverse, trimStart_map_toLower, ← List.map_reverse]
  rfl

theorem trim_map_toLower (text : List Char) :
    trim (text.map Char.toLower) = (trim text).map Char.toLower := by
  rw [trim, trimStart_map_toLower, trimEnd_map_toLower]
  rfl

theorem trim_cons_of_isBlank (h : isBlank c = true) (text : List Char) :
    trim (c :: text) = trim text := by
  rw [trim, trim, trimStart, List.dropWhile_cons_of_pos h]
  rfl

theorem trimEnd_starts (text : List Char) : trimEnd text <+: text :=
  List.rdropWhile_prefix isBlank text

theorem trimEnd_trimEnd (text : List Char) : trimEnd (trimEnd text) = trimEnd text := by
  simp only [trimEnd, List.reverse_reverse, List.dropWhile_idempotent]

/-- What is left of a text by the cut at its end still starts as the text does. -/
theorem trimStart_trimEnd_trimStart (text : List Char) :
    trimStart (trimEnd (trimStart text)) = trimEnd (trimStart text) := by
  have hstarts := trimEnd_starts (trimStart text)
  cases hleft : trimEnd (trimStart text) with
  | nil => rfl
  | cons c rest =>
      obtain ⟨behind, hbehind⟩ := hleft ▸ hstarts
      have hcons : text.dropWhile isBlank = c :: (rest ++ behind) := hbehind.symm
      have hhead := List.head?_dropWhile_not isBlank text
      rw [hcons] at hhead
      exact List.dropWhile_cons_of_neg (by simpa using hhead)

theorem trim_trim (text : List Char) : trim (trim text) = trim text := by
  rw [trim, trim, trimStart_trimEnd_trimStart, trimEnd_trimEnd]

/-- A text that starts and ends with other characters is left as it is. -/
theorem trim_of_ends {first last : Char} (hfirst : isBlank first = false)
    (hlast : isBlank last = false) (inner : List Char) :
    trim (first :: (inner ++ [last])) = first :: (inner ++ [last]) := by
  simp [trim, trimStart, trimEnd, hfirst, hlast]

end DiceNotation
