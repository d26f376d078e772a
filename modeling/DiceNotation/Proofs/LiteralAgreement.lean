import DiceNotation.Proofs.LiteralSpelling
import DiceNotation.Proofs.Scanning

/-!
# The scanner and the reader of literals

The scanner finds dice literals by their pattern and the reader takes them apart. The reader accepts
more: it lets a number begin with zero. Up to that the two agree.
-/

namespace DiceNotation

/-! ## Runs of digits -/

namespace Numeral

variable {u v w : List Char} {c : Char}

/-- The longest runs of digits in a text, some of them empty. -/
def runs (text : List Char) : List (List Char) :=
  text.splitOnP (!·.isDigit)

/-- No number in the text begins with zero. -/
def Unpadded (text : List Char) : Prop :=
  ∀ run ∈ runs text, run.head? ≠ some '0'

theorem unpadded_of_digits (hw : ∀ c ∈ w, c.isDigit = true) : Unpadded w ↔ w.head? ≠ some '0' := by
  have hruns : runs w = [w] := List.splitOnP_eq_singleton fun c hc => by simp [hw c hc]
  simp [Unpadded, hruns]

theorem unpadded_append_cons (hc : c.isDigit = false) :
    Unpadded (u ++ c :: v) ↔ Unpadded u ∧ Unpadded v := by
  have hruns : runs (u ++ c :: v) = runs u ++ runs v :=
    List.splitOnP_append_cons u v (by simp [hc])
  simp only [Unpadded, hruns, List.forall_mem_append]

@[simp]
theorem unpadded_nil : Unpadded [] := by
  simp [unpadded_of_digits]

theorem unpadded_cons (hc : c.isDigit = false) : Unpadded (c :: v) ↔ Unpadded v := by
  simpa using unpadded_append_cons (u := []) (v := v) hc

/-- Numbers do not reach over a place where no digit follows. -/
theorem unpadded_append (hv : ∀ c ∈ v.head?, c.isDigit = false) :
    Unpadded (u ++ v) ↔ Unpadded u ∧ Unpadded v := by
  cases v with
  | nil => simp
  | cons c tail =>
      have hc : c.isDigit = false := hv c rfl
      rw [unpadded_append_cons hc, unpadded_cons hc]

theorem unpadded_of_no_digit (hw : ∀ c ∈ w, c.isDigit = false) : Unpadded w := by
  induction w with
  | nil => exact unpadded_nil
  | cons c tail ih =>
      obtain ⟨hc, htail⟩ := List.forall_mem_cons.mp hw
      exact (unpadded_cons hc).mpr (ih htail)

/-- A number is unpadded exactly if the pattern without zeros in front matches it. -/
theorem unpadded_of_mem_number (hw : w ∈ Pattern.number.matches') :
    Unpadded w ↔ w ∈ Pattern.positive.matches' := by
  obtain ⟨hne, hdigits⟩ := Pattern.mem_number.mp hw
  obtain ⟨c, tail, rfl⟩ := List.exists_cons_of_ne_nil hne
  obtain ⟨hc, htail⟩ := List.forall_mem_cons.mp hdigits
  rw [unpadded_of_digits hdigits, Pattern.mem_positive]
  constructor
  · intro hzero
    exact ⟨c, tail, rfl, ⟨hc, fun h => hzero (congrArg some h)⟩, htail⟩
  · rintro ⟨d, rest, hcons, ⟨-, hd⟩, -⟩
    cases hcons
    simpa using hd

end Numeral

/-! ## Parts that can be read -/

namespace Lexeme.DiceParts

/-- Parts that are well-formed but for zeros in front of numbers. -/
structure Readable (parts : DiceParts) : Prop where
  count : parts.count = [] ∨ parts.count ∈ Pattern.number.matches'
  delimiter : isDelimiter parts.delimiter = true
  sides : parts.sides ∈ Pattern.number.matches' ∨ parts.sides ∈ Pattern.namedSides.matches'
  bang : parts.bang = [] ∨ parts.bang = ['!']
  selection : parts.selection = [] ∨ ∃ c direction digits,
    parts.selection = c :: direction ++ digits ∧ (Literal.readMode? c).isSome = true ∧
      (direction = [] ∨ ∃ d, direction = [d] ∧ (Literal.readDirection? d).isSome = true) ∧
      digits ∈ Pattern.number.matches'

theorem WellFormed.readable {parts : DiceParts} (h : parts.WellFormed) : parts.Readable where
  count := h.count.imp_right Pattern.mem_number_of_mem_positive
  delimiter := h.delimiter
  sides := Literal.mem_number_or_namedSides h.sides
  bang := h.bang
  selection := h.selection.imp_right fun hselection => by
    obtain ⟨c, direction, digits, heq, hmode, hdirection, hdigits⟩ :=
      Pattern.mem_selection.mp hselection
    exact ⟨c, direction, digits, heq, hmode, hdirection, Pattern.mem_number_of_mem_positive hdigits⟩

/-- Parts that spell a group are readable. -/
theorem Spells.readable {parts : DiceParts} {dice : Dice} (h : parts.Spells dice) :
    parts.Readable where
  count := h.count.imp And.left Quantity.WrittenAs.mem_number
  delimiter := by simpa [isDelimiter] using h.delimiter
  sides := h.sides.mem
  bang := by
    rw [h.bang]
    cases dice.explode with
    | true => exact .inr rfl
    | false => exact .inl rfl
  selection := by
    rcases h.selection with ⟨hnil, -⟩ | ⟨s, -, hs⟩
    · exact .inl hnil
    · exact .inr hs.exists_parts

theorem not_isDigit_of_readMode? {c : Char} (h : (Literal.readMode? c).isSome = true) :
    c.isDigit = false := by
  simpa using Literal.of_isSome_readMode? (p := (!·.isDigit)) (by decide) h

theorem not_isDigit_of_readDirection? {c : Char} (h : (Literal.readDirection? c).isSome = true) :
    c.isDigit = false := by
  by_contra hdigit
  simp [Literal.readDirection?_of_isDigit (by simpa using hdigit)] at h

theorem unpadded_selection {c : Char} {direction digits : List Char}
    (hmode : (Literal.readMode? c).isSome = true)
    (hdirection : direction = [] ∨
      ∃ d, direction = [d] ∧ (Literal.readDirection? d).isSome = true) :
    Numeral.Unpadded (c :: direction ++ digits) ↔ Numeral.Unpadded digits := by
  rw [List.cons_append, Numeral.unpadded_cons (not_isDigit_of_readMode? hmode)]
  rcases hdirection with rfl | ⟨d, rfl, hd⟩
  · rfl
  · exact Numeral.unpadded_cons (not_isDigit_of_readDirection? hd)

namespace Readable

variable {parts : DiceParts}

theorem count_iff (h : parts.Readable) : Numeral.Unpadded parts.count ↔
    parts.count = [] ∨ parts.count ∈ Pattern.positive.matches' := by
  rcases h.count with hnil | hnumber
  · simp [hnil]
  · have hne := (Pattern.mem_number.mp hnumber).1
    rw [Numeral.unpadded_of_mem_number hnumber, or_iff_right hne]

theorem sides_iff (h : parts.Readable) :
    Numeral.Unpadded parts.sides ↔ parts.sides ∈ Pattern.sides.matches' := by
  rw [Pattern.mem_sides]
  rcases h.sides with hnumber | hnamed
  · have hnot : parts.sides ∉ Pattern.namedSides.matches' := by
      intro hnamed
      obtain ⟨c, tail, hcons, hc⟩ := Pattern.head_of_mem_namedSides hnamed
      have hdigit := (Pattern.mem_number.mp hnumber).2 c (hcons ▸ List.mem_cons_self)
      simp [hc] at hdigit
    rw [Numeral.unpadded_of_mem_number hnumber, or_iff_left hnot]
  · exact iff_of_true (Numeral.unpadded_of_no_digit (Pattern.not_isDigit_of_mem_namedSides hnamed))
      (.inr hnamed)

theorem selection_iff (h : parts.Readable) : Numeral.Unpadded parts.selection ↔
    parts.selection = [] ∨ parts.selection ∈ Pattern.selection.matches' := by
  rcases h.selection with hnil | ⟨c, direction, digits, heq, hmode, hdirection, hdigits⟩
  · simp [hnil]
  · constructor
    · intro hunpadded
      rw [heq, unpadded_selection hmode hdirection, Numeral.unpadded_of_mem_number hdigits]
        at hunpadded
      exact .inr (Pattern.mem_selection.mpr
        ⟨c, direction, digits, heq, hmode, hdirection, hunpadded⟩)
    · rintro (hnil | hselection)
      · simp [hnil]
      · obtain ⟨c', direction', digits', heq', hmode', hdirection', hdigits'⟩ :=
          Pattern.mem_selection.mp hselection
        rw [heq', unpadded_selection hmode' hdirection',
          Numeral.unpadded_of_mem_number (Pattern.mem_number_of_mem_positive hdigits')]
        exact hdigits'

/-- The numbers of a literal are kept apart by what stands between them. -/
theorem unpadded_text (h : parts.Readable) : Numeral.Unpadded parts.text ↔
    Numeral.Unpadded parts.count ∧ Numeral.Unpadded parts.sides ∧
      Numeral.Unpadded parts.selection := by
  have hbang : Numeral.Unpadded parts.bang ∧ ∀ c ∈ parts.bang.head?, c.isDigit = false := by
    rcases h.bang with hbang | hbang <;> rw [hbang]
    · simp
    · exact ⟨Numeral.unpadded_of_no_digit (List.forall_mem_singleton.mpr rfl), by simp⟩
  have hselection : ∀ c ∈ parts.selection.head?, c.isDigit = false := by
    rcases h.selection with hnil | ⟨c, direction, digits, heq, hmode, -, -⟩
    · simp [hnil]
    · simp [heq, not_isDigit_of_readMode? hmode]
  have htext : parts.text =
      ((parts.count ++ parts.delimiter :: parts.sides) ++ parts.bang) ++ parts.selection := by
    simp [DiceParts.text]
  rw [htext, Numeral.unpadded_append hselection, Numeral.unpadded_append hbang.2,
    Numeral.unpadded_append_cons (not_isDigit_of_isDelimiter h.delimiter)]
  constructor
  · rintro ⟨⟨⟨hcount, hsides⟩, -⟩, hselection⟩
    exact ⟨hcount, hsides, hselection⟩
  · rintro ⟨hcount, hsides, hselection⟩
    exact ⟨⟨⟨hcount, hsides⟩, hbang.1⟩, hselection⟩

/-- Readable parts are well-formed exactly if no number among them begins with zero. -/
theorem unpadded_iff (h : parts.Readable) : Numeral.Unpadded parts.text ↔ parts.WellFormed := by
  rw [h.unpadded_text, h.count_iff, h.sides_iff, h.selection_iff]
  constructor
  · rintro ⟨hcount, hsides, hselection⟩
    exact ⟨hcount, h.delimiter, hsides, h.bang, hselection⟩
  · intro hparts
    exact ⟨hparts.count, hparts.sides, hparts.selection⟩

end Readable

end Lexeme.DiceParts

/-! ## What the reader accepts -/

namespace Literal

variable {text : List Char}

/-- A text that can be read is made of readable parts. -/
theorem exists_readable {dice : Dice} (h : readDice text = .ok dice) :
    ∃ parts : Lexeme.DiceParts, parts.Readable ∧ parts.text = text := by
  obtain ⟨parts, htext, hspells⟩ := readDice_eq_ok_iff_spells.mp h
  exact ⟨parts, hspells.readable, htext⟩

/-- The pattern of dice literals matches the texts that can be read and have no zero in front of a
number. -/
theorem matches_dice_iff : Lexeme.Kind.Matches .dice text ↔
    (∃ dice, readDice text = .ok dice) ∧ Numeral.Unpadded text := by
  constructor
  · intro h
    obtain ⟨parts, hparts, rfl⟩ := Lexeme.DiceParts.mem_dice_iff.mp h
    exact ⟨exists_readDice hparts, hparts.readable.unpadded_iff.mpr hparts⟩
  · rintro ⟨⟨dice, hread⟩, hunpadded⟩
    obtain ⟨parts, hparts, rfl⟩ := exists_readable hread
    exact Lexeme.DiceParts.mem_dice_iff.mpr ⟨parts, hparts.unpadded_iff.mp hunpadded, rfl⟩

end Literal

/-! ## The scanner -/

namespace Lexeme

/-- A dice token is read from a word that the pattern of dice literals matches. -/
theorem Lexes.exists_word_of_dice {text stop : List Char} {words : List (List Char)}
    {tokens : List Token} {literal : Literal} (h : Lexes text words tokens stop)
    (hmem : .dice literal ∈ tokens) : ∃ word, Kind.Matches .dice word ∧
      literal.text = String.ofList word ∧ Literal.readDice word = .ok literal.dice := by
  induction h with
  | stop text => cases hmem
  | next hlongest hstands hrest ih =>
      rcases List.mem_append.mp hmem with hfirst | hlater
      · have htoken := Option.mem_toList.mp hfirst
        cases hstands with
        | dice hwhole hread =>
            cases htoken
            exact ⟨_, hlongest.matched, rfl, hread⟩
        | _ => cases htoken
      · exact ih hlater

/-- What the scanner takes for a dice literal, the reader accepts. -/
theorem exists_read_of_first {c : Char} {rest : List Char} (h : (first c rest).kind = .dice) :
    ∃ literal, Literal.read (String.ofList (first c rest).text) = .ok literal := by
  cases hparts : DiceParts.first? (c :: rest) with
  | none =>
      have hfirst : first c rest = simple c rest := by simp [first, dice?, hparts]
      rw [hfirst] at h
      rcases isLongest_simple hparts with hlongest | ⟨hunknown, -⟩
      · exact absurd (h ▸ hlongest.matched) (not_matches_dice hparts hlongest.starts)
      · rw [hunknown] at h
        cases h
  | some parts =>
      have htext : (first c rest).text = parts.text := by simp [first, dice?, hparts]
      obtain ⟨dice, hread⟩ :=
        Literal.exists_readDice (DiceParts.wellFormed_of_first? hparts).1
      refine ⟨⟨String.ofList parts.text, dice⟩, ?_⟩
      rw [htext, Literal.read, String.toList_ofList, hread]
      rfl

end Lexeme

namespace Literal

theorem read_eq_ok_iff {text : String} {dice : Dice} :
    read text = .ok ⟨text, dice⟩ ↔ readDice text.toList = .ok dice := by
  unfold read
  cases readDice text.toList with
  | error e => exact iff_of_false nofun nofun
  | ok group => simp [Except.map]

end Literal

namespace Token

open Lexeme

theorem scan_eq_dice_iff {text : String} {dice : Dice} :
    scan text = .ok [.dice ⟨text, dice⟩] ↔
      Literal.readDice text.toList = .ok dice ∧ Kind.Matches .dice text.toList := by
  rw [scan, scanFrom_eq_ok_iff]
  constructor
  · rintro ⟨words, h⟩
    obtain ⟨word, hmatched, htext, hread⟩ := h.exists_word_of_dice List.mem_cons_self
    have hword : text.toList = word := by
      rw [show text = String.ofList word from htext, String.toList_ofList]
    rw [hword]
    exact ⟨hread, hmatched⟩
  · rintro ⟨hread, hmatched⟩
    obtain ⟨parts, hparts, htext⟩ := DiceParts.mem_dice_iff.mp hmatched
    have hlongest : IsLongest (text.toList ++ []) .dice text.toList := by
      rw [List.append_nil, htext]
      exact isLongest_dice (DiceParts.first?_text hparts)
    have hwhole : ¬ BreaksOff text.toList [] := by
      rintro ⟨-, ⟨c, -, hnext⟩, -⟩
      cases hnext
    have hlexes := Lexes.next hlongest (.dice hwhole hread) (.stop [])
    rw [List.append_nil, String.ofList_toList] at hlexes
    exact ⟨[text.toList], hlexes⟩

/-- Scanning never ends in an internal error, because the reader accepts what the scanner takes for a
dice literal. A text is scanned as one dice literal exactly if the reader accepts it and no number in
it begins with zero. -/
theorem scan_agrees_with_read (text : String) :
    (∀ e, scan text = .error e → e.kind ≠ .internal) ∧
    (∀ c rest, (first c rest).kind = .dice →
      ∃ literal, Literal.read (String.ofList (first c rest).text) = .ok literal) ∧
    ∀ dice, scan text = .ok [.dice ⟨text, dice⟩] ↔
      Literal.read text = .ok ⟨text, dice⟩ ∧ Numeral.Unpadded text.toList := by
  refine ⟨?_, fun c rest => exists_read_of_first, ?_⟩
  · intro e h
    obtain ⟨words, tokens, c, rest, -, -, rfl⟩ := scanFrom_eq_error_iff.mp h
    show Error.Kind.grammar ≠ .internal
    decide
  · intro dice
    rw [scan_eq_dice_iff, Literal.read_eq_ok_iff, Literal.matches_dice_iff]
    constructor
    · rintro ⟨hread, -, hunpadded⟩
      exact ⟨hread, hunpadded⟩
    · rintro ⟨hread, hunpadded⟩
      exact ⟨hread, ⟨dice, hread⟩, hunpadded⟩

end Token

end DiceNotation
