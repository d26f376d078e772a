import DiceNotation.Token.Pattern
import Mathlib

/-!
# The words of the patterns

Which words each pattern generates, said without regular expressions. A dice literal is generated
exactly if it is made of well-formed parts.
-/

namespace DiceNotation

open RegularExpression

/-! ## Characters -/

theorem toLower_eq_iff {c l : Char} (hl : l.isLower = true) :
    c.toLower = l ↔ c = l ∨ c = l.toUpper := by
  have hlower : l.toLower = l := Char.toLower_eq_of_not_isUpper (Char.not_isUpper_of_isLower hl)
  constructor
  · intro h
    by_cases hupper : c.isUpper = true
    · right
      rw [← h, Char.toUpper_toLower_eq_toUpper]
      exact (Char.toUpper_eq_of_not_isLower (Char.not_isLower_of_isUpper hupper)).symm
    · left
      rw [← h, Char.toLower_eq_of_not_isUpper hupper]
  · rintro (rfl | rfl)
    · exact hlower
    · rw [Char.toLower_toUpper_eq_toLower, hlower]

theorem mem_digits_iff {c : Char} :
    c ∈ ['0', '1', '2', '3', '4', '5', '6', '7', '8', '9'] ↔ c.isDigit = true := by
  constructor
  · intro h
    simp only [List.mem_cons, List.not_mem_nil, or_false] at h
    rcases h with rfl | rfl | rfl | rfl | rfl | rfl | rfl | rfl | rfl | rfl <;> rfl
  · intro h
    obtain ⟨hlow, hhigh⟩ := Char.isDigit_iff_toNat.mp h
    have hc := Char.ofNat_toNat c
    simp only [Char.reduceToNat] at hlow hhigh
    interval_cases c.toNat <;> (rw [← hc]; decide)

theorem mem_positiveDigits_iff {c : Char} :
    c ∈ ['1', '2', '3', '4', '5', '6', '7', '8', '9'] ↔ c.isDigit = true ∧ c ≠ '0' := by
  rw [← mem_digits_iff]
  constructor
  · intro h
    refine ⟨List.mem_cons_of_mem '0' h, ?_⟩
    rintro rfl
    simp at h
  · rintro ⟨h, hzero⟩
    exact (List.mem_cons.mp h).resolve_left hzero

/-- What holds of the ten digits holds of every digit. -/
theorem of_isDigit {p : Char → Bool}
    (hp : ['0', '1', '2', '3', '4', '5', '6', '7', '8', '9'].all p = true) {c : Char}
    (hc : c.isDigit = true) : p c = true :=
  List.all_eq_true.mp hp c (mem_digits_iff.mpr hc)

theorem isDelimiter_iff {c : Char} : isDelimiter c = true ↔ c ∈ ['d', 'D'] := by
  simp [isDelimiter]

theorem of_isDelimiter {p : Char → Bool} (hp : ['d', 'D'].all p = true) {c : Char}
    (hc : isDelimiter c = true) : p c = true :=
  List.all_eq_true.mp hp c (isDelimiter_iff.mp hc)

theorem not_isDigit_of_isDelimiter {c : Char} (hc : isDelimiter c = true) : c.isDigit = false := by
  simpa using of_isDelimiter (p := (!·.isDigit)) (by decide) hc

theorem not_isDelimiter_of_isDigit {c : Char} (hc : c.isDigit = true) : isDelimiter c = false := by
  simpa using of_isDigit (p := (!isDelimiter ·)) (by decide) hc

namespace Literal

theorem isSome_readMode?_iff {c : Char} :
    (readMode? c).isSome = true ↔ c ∈ ['k', 'K', 'd', 'D'] := by
  have hk := toLower_eq_iff (c := c) (l := 'k') rfl
  have hd := toLower_eq_iff (c := c) (l := 'd') rfl
  have hsome : (readMode? c).isSome = true ↔ c.toLower = 'k' ∨ c.toLower = 'd' := by
    unfold readMode?
    split <;> simp_all
  rw [hsome, hk, hd]
  simp [or_assoc]

theorem isSome_readDirection?_iff {c : Char} :
    (readDirection? c).isSome = true ↔ c ∈ ['h', 'H', 'l', 'L'] := by
  have hh := toLower_eq_iff (c := c) (l := 'h') rfl
  have hl := toLower_eq_iff (c := c) (l := 'l') rfl
  have hsome : (readDirection? c).isSome = true ↔ c.toLower = 'h' ∨ c.toLower = 'l' := by
    unfold readDirection?
    split <;> simp_all
  rw [hsome, hh, hl]
  simp [or_assoc]

theorem of_isSome_readMode? {p : Char → Bool} (hp : ['k', 'K', 'd', 'D'].all p = true) {c : Char}
    (hc : (readMode? c).isSome = true) : p c = true :=
  List.all_eq_true.mp hp c (isSome_readMode?_iff.mp hc)

theorem readDirection?_of_isDigit {c : Char} (hc : c.isDigit = true) : readDirection? c = none := by
  simpa using of_isDigit (p := (readDirection? · |>.isNone)) (by decide) hc

end Literal

theorem not_isDigit_of_isAlpha {c : Char} (h : c.isAlpha = true) : c.isDigit = false := by
  by_contra hdigit
  have hnot := of_isDigit (p := (!·.isAlpha)) (by decide) (by simpa using hdigit)
  simp [h] at hnot

namespace DiceKind

variable {kind : DiceKind} {w : List Char}

/-- A tag consists of letters. -/
theorem isAlpha_of_tag (hkind : kind ∈ tagged) (hw : w.map Char.toLower = kind.foldedTag) :
    ∀ c ∈ w, c.isAlpha = true := by
  have hletters : ∀ kind ∈ tagged, kind.foldedTag.all Char.isAlpha = true := by decide
  intro c hc
  have hmem : c.toLower ∈ kind.foldedTag := hw ▸ List.mem_map_of_mem hc
  rw [← Char.isAlpha_toLower_eq_isAlpha]
  exact List.all_eq_true.mp (hletters kind hkind) _ hmem

theorem head_of_tag (hkind : kind ∈ tagged) (hw : w.map Char.toLower = kind.foldedTag) :
    ∃ c tail, w = c :: tail ∧ c.isDigit = false ∧ c ≠ '%' := by
  have htags : ∀ kind ∈ tagged, kind.foldedTag ≠ [] := by decide
  have hne : w ≠ [] := by
    rintro rfl
    exact htags kind hkind hw.symm
  obtain ⟨c, tail, rfl⟩ := List.exists_cons_of_ne_nil hne
  have halpha := isAlpha_of_tag hkind hw c List.mem_cons_self
  refine ⟨c, tail, rfl, not_isDigit_of_isAlpha halpha, ?_⟩
  rintro rfl
  exact absurd halpha (by decide)

end DiceKind

namespace Pattern

/-! ## Operations on patterns -/

variable {chars letters w : List Char} {p q : RegularExpression Char} {c : Char}

theorem mem_char : w ∈ (char c).matches' ↔ w = [c] :=
  Iff.rfl

theorem mem_add : w ∈ (p + q).matches' ↔ w ∈ p.matches' ∨ w ∈ q.matches' := by
  rw [matches'_add, Language.mem_add]

theorem mem_mul : w ∈ (p * q).matches' ↔ ∃ u v, u ∈ p.matches' ∧ v ∈ q.matches' ∧ w = u ++ v := by
  rw [matches'_mul, Language.mem_mul]
  constructor
  · rintro ⟨u, hu, v, hv, rfl⟩
    exact ⟨u, v, hu, hv, rfl⟩
  · rintro ⟨u, v, hu, hv, rfl⟩
    exact ⟨u, hu, v, hv, rfl⟩

theorem mem_optional : w ∈ (optional p).matches' ↔ w = [] ∨ w ∈ p.matches' := by
  rw [optional, mem_add, matches'_epsilon, Language.mem_one]

theorem mem_oneOf : w ∈ (oneOf chars).matches' ↔ ∃ c ∈ chars, w = [c] := by
  induction chars with
  | nil => simp [oneOf]
  | cons c chars ih =>
      have hsum : oneOf (c :: chars) = char c + oneOf chars := rfl
      rw [hsum, mem_add, mem_char, ih]
      simp

theorem mem_star_oneOf : w ∈ (oneOf chars).star.matches' ↔ ∀ c ∈ w, c ∈ chars := by
  rw [matches'_star, Language.mem_kstar]
  constructor
  · rintro ⟨parts, rfl, hparts⟩ c hc
    obtain ⟨part, hpart, hc⟩ := List.mem_flatten.mp hc
    obtain ⟨d, hd, rfl⟩ := mem_oneOf.mp (hparts part hpart)
    rwa [List.mem_singleton.mp hc]
  · intro h
    refine ⟨w.map fun c => [c], ?_, ?_⟩
    · rw [← List.flatMap_def, List.flatMap_singleton']
    · intro part hpart
      obtain ⟨c, hc, rfl⟩ := List.mem_map.mp hpart
      exact mem_oneOf.mpr ⟨c, h c hc, rfl⟩

/-- One of the characters, and then any number of others. -/
theorem mem_oneOf_mul_star {others : List Char} :
    w ∈ (oneOf chars * (oneOf others).star).matches' ↔
      ∃ c rest, w = c :: rest ∧ c ∈ chars ∧ ∀ d ∈ rest, d ∈ others := by
  rw [mem_mul]
  constructor
  · rintro ⟨u, rest, hu, hrest, rfl⟩
    obtain ⟨c, hc, rfl⟩ := mem_oneOf.mp hu
    exact ⟨c, rest, rfl, hc, mem_star_oneOf.mp hrest⟩
  · rintro ⟨c, rest, rfl, hc, hrest⟩
    exact ⟨[c], rest, mem_oneOf.mpr ⟨c, hc, rfl⟩, mem_star_oneOf.mpr hrest, rfl⟩

theorem mem_word (letters : List Char) (h : letters.all Char.isLower = true) :
    w ∈ (word letters).matches' ↔ w.map Char.toLower = letters := by
  induction letters generalizing w with
  | nil => simp [word, matches'_epsilon]
  | cons c letters ih =>
      obtain ⟨hc, hletters⟩ := (Bool.and_eq_true _ _).mp h
      have hprod : word (c :: letters) = oneOf [c, c.toUpper] * word letters := rfl
      rw [hprod, mem_mul]
      constructor
      · rintro ⟨u, v, hu, hv, rfl⟩
        obtain ⟨d, hd, rfl⟩ := mem_oneOf.mp hu
        have hlower : d.toLower = c := (toLower_eq_iff hc).mpr (by simpa using hd)
        rw [List.map_append, (ih hletters).mp hv, List.map_singleton, hlower]
        rfl
      · intro hw
        obtain ⟨d, v, rfl, hd, hv⟩ := List.map_eq_cons_iff.mp hw
        refine ⟨[d], v, mem_oneOf.mpr ⟨d, ?_, rfl⟩, (ih hletters).mpr hv, rfl⟩
        simpa using (toLower_eq_iff hc).mp hd

/-! ## The patterns of lexemes -/

theorem mem_number : w ∈ number.matches' ↔ w ≠ [] ∧ ∀ c ∈ w, c.isDigit = true := by
  simp only [number, digit, mem_oneOf_mul_star, mem_digits_iff]
  constructor
  · rintro ⟨c, rest, rfl, hc, hrest⟩
    exact ⟨List.cons_ne_nil c rest, List.forall_mem_cons.mpr ⟨hc, hrest⟩⟩
  · rintro ⟨hne, hw⟩
    obtain ⟨c, rest, rfl⟩ := List.exists_cons_of_ne_nil hne
    obtain ⟨hc, hrest⟩ := List.forall_mem_cons.mp hw
    exact ⟨c, rest, rfl, hc, hrest⟩

theorem mem_positive : w ∈ positive.matches' ↔
    ∃ c rest, w = c :: rest ∧ (c.isDigit = true ∧ c ≠ '0') ∧ ∀ d ∈ rest, d.isDigit = true := by
  simp only [positive, digit, mem_oneOf_mul_star, mem_digits_iff, mem_positiveDigits_iff]

theorem ne_nil_of_mem_positive (hw : w ∈ positive.matches') : w ≠ [] := by
  obtain ⟨c, rest, rfl, -, -⟩ := mem_positive.mp hw
  exact List.cons_ne_nil c rest

theorem mem_number_of_mem_positive (hw : w ∈ positive.matches') : w ∈ number.matches' := by
  obtain ⟨c, digits, rfl, ⟨hc, -⟩, hdigits⟩ := mem_positive.mp hw
  exact mem_number.mpr ⟨List.cons_ne_nil c digits, List.forall_mem_cons.mpr ⟨hc, hdigits⟩⟩

theorem isDigit_of_mem_positive (hw : w ∈ positive.matches') : ∀ c ∈ w, c.isDigit = true :=
  (mem_number.mp (mem_number_of_mem_positive hw)).2

theorem mem_delimiter : w ∈ delimiter.matches' ↔ ∃ c, w = [c] ∧ isDelimiter c = true := by
  simp only [delimiter, mem_oneOf, isDelimiter_iff, and_comm]

theorem mem_namedSides : w ∈ namedSides.matches' ↔
    w = ['%'] ∨ ∃ kind ∈ DiceKind.tagged, w.map Char.toLower = kind.foldedTag := by
  have hh := mem_word ['h'] (by decide) (w := w)
  have hf := mem_word ['f'] (by decide) (w := w)
  have hatk := mem_word ['m', 'c', 'p', 'a', 't', 'k'] (by decide) (w := w)
  have hdef := mem_word ['m', 'c', 'p', 'd', 'e', 'f'] (by decide) (w := w)
  have hfolded : DiceKind.tagged.map DiceKind.foldedTag = [['m', 'c', 'p', 'a', 't', 'k'],
      ['m', 'c', 'p', 'd', 'e', 'f'], ['f'], ['h']] := by decide
  have htag : (∃ kind ∈ DiceKind.tagged, w.map Char.toLower = kind.foldedTag) ↔
      w.map Char.toLower ∈ DiceKind.tagged.map DiceKind.foldedTag := by
    simp only [List.mem_map, eq_comm]
  simp only [namedSides, mem_add, mem_char, hh, hf, hatk, hdef, htag, hfolded, List.mem_cons,
    List.not_mem_nil, or_false]
  constructor
  · rintro ((((h | h) | h) | h) | h) <;> simp [h]
  · rintro (h | h | h | h | h) <;> simp [h]

theorem not_isDigit_of_mem_namedSides (hw : w ∈ namedSides.matches') :
    ∀ c ∈ w, c.isDigit = false := by
  rcases mem_namedSides.mp hw with rfl | ⟨kind, hkind, htag⟩
  · exact List.forall_mem_singleton.mpr rfl
  · exact fun c hc => not_isDigit_of_isAlpha (DiceKind.isAlpha_of_tag hkind htag c hc)

theorem head_of_mem_namedSides (hw : w ∈ namedSides.matches') :
    ∃ c tail, w = c :: tail ∧ c.isDigit = false := by
  rcases mem_namedSides.mp hw with rfl | ⟨kind, hkind, htag⟩
  · exact ⟨'%', [], rfl, rfl⟩
  · obtain ⟨c, tail, hcons, hc, -⟩ := DiceKind.head_of_tag hkind htag
    exact ⟨c, tail, hcons, hc⟩

theorem mem_sides : w ∈ sides.matches' ↔ w ∈ positive.matches' ∨ w ∈ namedSides.matches' :=
  mem_add

theorem ne_nil_of_mem_sides (hw : w ∈ sides.matches') : w ≠ [] := by
  rcases mem_sides.mp hw with hw | hw
  · exact ne_nil_of_mem_positive hw
  · obtain ⟨c, tail, rfl, -⟩ := head_of_mem_namedSides hw
    exact List.cons_ne_nil c tail

theorem mem_selection : w ∈ selection.matches' ↔
    ∃ c direction digits, w = c :: direction ++ digits ∧ (Literal.readMode? c).isSome = true ∧
      (direction = [] ∨ ∃ d, direction = [d] ∧ (Literal.readDirection? d).isSome = true) ∧
      digits ∈ positive.matches' := by
  simp only [selection, mem_mul, mem_optional, mem_oneOf, Literal.isSome_readMode?_iff,
    Literal.isSome_readDirection?_iff]
  constructor
  · rintro ⟨_, digits, ⟨_, direction, ⟨c, hc, rfl⟩, hdirection, rfl⟩, hdigits, rfl⟩
    refine ⟨c, direction, digits, rfl, hc, hdirection.imp_right ?_, hdigits⟩
    rintro ⟨d, hd, rfl⟩
    exact ⟨d, rfl, hd⟩
  · rintro ⟨c, direction, digits, rfl, hc, hdirection, hdigits⟩
    refine ⟨c :: direction, digits, ⟨[c], direction, ⟨c, hc, rfl⟩, hdirection.imp_right ?_, rfl⟩,
      hdigits, rfl⟩
    rintro ⟨d, rfl, hd⟩
    exact ⟨d, hd, rfl⟩

end Pattern

/-! ## Dice literals -/

namespace Lexeme.DiceParts

structure WellFormed (parts : DiceParts) : Prop where
  count : parts.count = [] ∨ parts.count ∈ Pattern.positive.matches'
  delimiter : isDelimiter parts.delimiter = true
  sides : parts.sides ∈ Pattern.sides.matches'
  bang : parts.bang = [] ∨ parts.bang = ['!']
  selection : parts.selection = [] ∨ parts.selection ∈ Pattern.selection.matches'

theorem mem_dice_iff {w : List Char} :
    w ∈ Pattern.dice.matches' ↔ ∃ parts : DiceParts, parts.WellFormed ∧ w = parts.text := by
  simp only [Pattern.dice, Pattern.mem_mul, Pattern.mem_optional, Pattern.mem_delimiter,
    Pattern.bang, Pattern.mem_char]
  constructor
  · rintro ⟨_, selection, ⟨_, bang, ⟨_, sides, ⟨count, _, hcount, ⟨delimiter, rfl, hdelimiter⟩,
      rfl⟩, hsides, rfl⟩, hbang, rfl⟩, hselection, rfl⟩
    exact ⟨⟨count, delimiter, sides, bang, selection⟩,
      ⟨hcount, hdelimiter, hsides, hbang, hselection⟩, by simp [text]⟩
  · rintro ⟨⟨count, delimiter, sides, bang, selection⟩,
      ⟨hcount, hdelimiter, hsides, hbang, hselection⟩, rfl⟩
    exact ⟨_, selection, ⟨_, bang, ⟨_, sides, ⟨count, [delimiter], hcount,
      ⟨delimiter, rfl, hdelimiter⟩, rfl⟩, hsides, rfl⟩, hbang, rfl⟩, hselection, by simp [text]⟩

theorem mem_countedNamed_iff {w : List Char} :
    w ∈ Pattern.countedNamed.matches' ↔ ∃ parts : DiceParts, parts.WellFormed ∧ w = parts.text ∧
      parts.count ≠ [] ∧ parts.sides ∈ Pattern.namedSides.matches' ∧ parts.selection = [] := by
  simp only [Pattern.countedNamed, Pattern.mem_mul, Pattern.mem_optional, Pattern.mem_delimiter,
    Pattern.bang, Pattern.mem_char]
  constructor
  · rintro ⟨_, bang, ⟨_, sides, ⟨count, _, hcount, ⟨delimiter, rfl, hdelimiter⟩, rfl⟩, hsides,
      rfl⟩, hbang, rfl⟩
    exact ⟨⟨count, delimiter, sides, bang, []⟩,
      ⟨.inr hcount, hdelimiter, Pattern.mem_sides.mpr (.inr hsides), hbang, .inl rfl⟩,
      by simp [text], Pattern.ne_nil_of_mem_positive hcount, hsides, rfl⟩
  · rintro ⟨⟨count, delimiter, sides, bang, _⟩, ⟨hcount, hdelimiter, -, hbang, -⟩, rfl, hne,
      hsides, rfl⟩
    exact ⟨_, bang, ⟨_, sides, ⟨count, [delimiter], hcount.resolve_left hne,
      ⟨delimiter, rfl, hdelimiter⟩, rfl⟩, hsides, rfl⟩, hbang, by simp [text]⟩

end Lexeme.DiceParts

end DiceNotation
