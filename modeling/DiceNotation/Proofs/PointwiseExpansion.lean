import DiceNotation.Proofs.BareDice
import DiceNotation.Proofs.FactionWords

/-!
# Expansion, place by place

What a system writes for a character depends on the characters around it: on the next one for a `d`
without faces, and on three on either side for the words of faction dice. The rule says nothing of
matches or of a search from left to right. A text that has been expanded holds no shorthand, and
every expansion is longer than the shorthand, so a text stays what it is exactly if it holds none.
-/

namespace DiceNotation

open Alias

namespace GameSystem

/-! ## All systems -/

/-- What a system writes for the character at a place of a text. -/
def image (system : GameSystem) (text : List Char) (i : Nat) : List Char :=
  match system with
  | standard => text[i]?.toList
  | duality => dieImage ['h'] (text.drop i)
  | fudge => dieImage ['F'] (text.drop i)
  | faction => factionImage text i

theorem flatMap_getElem? (text : List Char) :
    ((List.range text.length).flatMap fun i => text[i]?.toList) = text := by
  induction text with
  | nil => rfl
  | cons c rest ih =>
      rw [List.length_cons, List.range_succ_eq_map, List.flatMap_cons, List.flatMap_map]
      exact congrArg (c :: ·) ih

theorem expandChars_eq_flatMap (system : GameSystem) (text : List Char) :
    (system.expandChars text).1 = (List.range text.length).flatMap (system.image text) := by
  cases system with
  | standard => exact (flatMap_getElem? text).symm
  | duality => exact replaceAll_bareDie_eq ['h'] text
  | fudge => exact replaceAll_bareDie_eq ['F'] text
  | faction =>
      have hclosed : Closed [] text := fun j hj => absurd hj (Nat.not_lt_zero j)
      have himages := hclosed.flatMap_factionImage
      simp only [List.nil_append, List.length_nil, Nat.zero_add] at himages
      exact himages.symm

theorem expandChars_expandChars (system : GameSystem) (text : List Char) :
    (system.expandChars (system.expandChars text).1).1 = (system.expandChars text).1 := by
  cases system with
  | standard => rfl
  | duality =>
      have htag : Guarded continues (('d' :: ['h']).map foldCase) := by
        simp [foldCase, Guarded, continues]
      exact (unmatched_bareDie htag text).replaceAll_eq
  | fudge =>
      have htag : Guarded continues (('d' :: ['F']).map foldCase) := by
        simp [foldCase, Guarded, continues]
      exact (unmatched_bareDie htag text).replaceAll_eq
  | faction =>
      obtain ⟨hattack, hdefense⟩ := unmatched_faction text
      rw [expandChars_faction (faction.expandChars text).1, hattack.replaceAll_eq,
        hdefense.replaceAll_eq]

theorem lengthens_attackDie : Lengthens attackDie :=
  lengthens_word (by simp) (by decide)

theorem lengthens_defenseDie : Lengthens defenseDie :=
  lengthens_word (by simp) (by decide)

/-- A system has found shorthand exactly if the text is not what it was. -/
theorem expandChars_found_iff (system : GameSystem) (text : List Char) :
    (system.expandChars text).2 = false ↔ (system.expandChars text).1 = text := by
  cases system with
  | standard => exact iff_of_true rfl rfl
  | duality => exact found_eq_false_iff (lengthens_bareDie (by simp [DiceKind.tag]))
  | fudge => exact found_eq_false_iff (lengthens_bareDie (by simp [DiceKind.tag]))
  | faction =>
      have hboth : (faction.expandChars text).2 = ((replaceAll attackDie text).2 ||
          (replaceAll defenseDie (replaceAll attackDie text).1).2) := rfl
      rw [hboth, Bool.or_eq_false_iff, found_eq_false_iff lengthens_attackDie,
        found_eq_false_iff lengthens_defenseDie, expandChars_faction]
      constructor
      · rintro ⟨hattack, hdefense⟩
        rw [hdefense, hattack]
      · intro hsame
        -- both passes lengthen the text if they find a word
        have hattack : (replaceAll attackDie text).1 = text := by
          rw [← found_eq_false_iff lengthens_attackDie]
          by_contra hfound
          have hlt := length_lt_replaceAll lengthens_attackDie (by simpa using hfound)
          have hle := length_le_replaceAll lengthens_defenseDie (replaceAll attackDie text).1
          rw [hsame] at hle
          exact absurd hlt (Nat.not_lt.mpr hle)
        rw [hattack] at hsame ⊢
        exact ⟨rfl, hsame⟩

/-- **Expansion is a rule for each place of a text, and leaves nothing to expand.** A system writes
for each character what the characters around it ask for. It changes nothing in a text that it has
expanded, and a text is what it was exactly if no shorthand is found in it. It makes no difference
whether the count in front of a `d` without faces is part of the match. -/
theorem expand_eq_images (system : GameSystem) (text : String) :
    system.expand text =
      String.ofList ((List.range text.toList.length).flatMap (system.image text.toList)) ∧
    system.expand (system.expand text) = system.expand text ∧
    (system.usesShorthand text = false ↔ system.expand text = text) ∧
    ∀ tag, replaceAll (countedBareDie tag) text.toList = replaceAll (bareDie tag) text.toList := by
  refine ⟨?_, ?_, ?_, fun tag => replaceAll_countedBareDie tag text.toList⟩
  · rw [expand, expandChars_eq_flatMap]
  · rw [expand, expand, String.toList_ofList, expandChars_expandChars]
  · rw [usesShorthand, expandChars_found_iff, expand, ← String.toList_inj, String.toList_ofList]

/-- Two words stand directly behind a `d` that is none. -/
example : faction.expand "ddatkddef" = "ddMcpAtkdMcpDef" := by decide +kernel

end GameSystem

end DiceNotation
