import DiceNotation.Proofs.LiteralReading

/-!
# The longest match

Only dice literals contain a delimiter, and the first character tells the other lexemes apart. So a
word has one kind, a text has one longest match, and it is the lexeme that is cut off its front.
-/

namespace DiceNotation

theorem Operator.eq_toChar {op : Operator} {c : Char} (h : ofChar? c = some op) :
    c = op.toChar := by
  unfold ofChar? at h
  split at h <;> cases h <;> rfl

namespace Lexeme

variable {kind kind' : Kind} {c : Char} {w word word' rest text : List Char}

/-! ## Lexemes that are no dice literals -/

theorem mem_blanks_iff : w ∈ Pattern.blanks.matches' ↔
    ∃ c tail, w = c :: tail ∧ isSeparator c = true ∧ ∀ d ∈ tail, isSeparator d = true := by
  have hseparator : ∀ c, isSeparator c = true ↔ c ∈ [' ', '\t', '\n', '\r', '\x0c'] := by
    intro c
    simp [isSeparator, or_assoc]
  simp only [Pattern.blanks, Pattern.separator, Pattern.mem_oneOf_mul_star, hseparator]

theorem isSeparator_of_matches_blank (hw : Kind.Matches .blank w) :
    ∀ c ∈ w, isSeparator c = true := by
  obtain ⟨c, tail, rfl, hc, htail⟩ := mem_blanks_iff.mp hw
  exact List.forall_mem_cons.mpr ⟨hc, htail⟩

theorem not_matches_unknown : ¬ Kind.Matches .unknown w := by
  unfold Kind.Matches Kind.pattern
  rw [RegularExpression.matches'_zero]
  exact Language.notMem_zero w

theorem not_isSeparator_of_isDigit (hc : c.isDigit = true) : isSeparator c = false := by
  simpa using of_isDigit (p := (!isSeparator ·)) (by decide) hc

theorem length_le_takeWhile {p : Char → Bool} (hw : ∀ c ∈ w, p c = true) (hstarts : w <+: text) :
    w.length ≤ (text.takeWhile p).length := by
  obtain ⟨rest, rfl⟩ := hstarts
  rw [List.takeWhile_append_of_pos hw, List.length_append]
  exact Nat.le_add_right _ _

/-- The first character of a lexeme that is no dice literal tells its kind, and the lexeme that is
cut off is not shorter. -/
theorem simple_of_matches (hkind : kind ≠ .dice) (hw : kind.Matches (c :: w))
    (hstarts : w <+: rest) :
    (simple c rest).kind = kind ∧ w.length + 1 ≤ (simple c rest).text.length := by
  cases kind with
  | dice => exact absurd rfl hkind
  | unknown => exact absurd hw not_matches_unknown
  | blank =>
      obtain ⟨d, tail, hcons, hd, htail⟩ := mem_blanks_iff.mp hw
      cases hcons
      have hsimple : simple c rest = ⟨.blank, c :: rest.takeWhile isSeparator⟩ := if_pos hd
      rw [hsimple]
      exact ⟨rfl, Nat.succ_le_succ (length_le_takeWhile htail hstarts)⟩
  | number =>
      obtain ⟨hc, hdigits⟩ := List.forall_mem_cons.mp (Pattern.mem_number.mp hw).2
      have hsimple : simple c rest = ⟨.number, c :: rest.takeWhile Char.isDigit⟩ := by
        simp [simple, not_isSeparator_of_isDigit hc, hc]
      rw [hsimple]
      exact ⟨rfl, Nat.succ_le_succ (length_le_takeWhile hdigits hstarts)⟩
  | operator op =>
      cases Pattern.mem_char.mp hw
      cases op <;> exact ⟨rfl, le_rfl⟩
  | leftParen =>
      cases Pattern.mem_char.mp hw
      exact ⟨rfl, le_rfl⟩
  | rightParen =>
      cases Pattern.mem_char.mp hw
      exact ⟨rfl, le_rfl⟩

/-- What is cut off a text that starts with no dice literal. -/
theorem simple_cases (c : Char) (rest : List Char) :
    (∃ tail, (simple c rest).text = c :: tail ∧ tail <+: rest) ∧
      (simple c rest = ⟨.unknown, [c]⟩ ∨ (simple c rest).kind.Matches (simple c rest).text) := by
  have hsingle : ∃ tail, [c] = c :: tail ∧ tail <+: rest := ⟨[], rfl, List.nil_prefix⟩
  have hrun : ∀ p : Char → Bool, ∃ tail, c :: rest.takeWhile p = c :: tail ∧ tail <+: rest :=
    fun p => ⟨rest.takeWhile p, rfl, List.takeWhile_prefix p⟩
  unfold simple
  split
  next hc =>
    refine ⟨hrun isSeparator, .inr (mem_blanks_iff.mpr ⟨c, _, rfl, hc, ?_⟩)⟩
    exact List.all_eq_true.mp List.all_takeWhile
  next =>
    split
    next hc =>
      refine ⟨hrun Char.isDigit, .inr (Pattern.mem_number.mpr ⟨List.cons_ne_nil c _, ?_⟩)⟩
      exact List.forall_mem_cons.mpr ⟨hc, List.all_eq_true.mp List.all_takeWhile⟩
    next =>
      split
      next hc => exact ⟨hsingle, .inr (Pattern.mem_char.mpr (hc ▸ rfl))⟩
      next =>
        split
        next hc => exact ⟨hsingle, .inr (Pattern.mem_char.mpr (hc ▸ rfl))⟩
        next =>
          split
          next op hop => exact ⟨hsingle, .inr (Pattern.mem_char.mpr (Operator.eq_toChar hop ▸ rfl))⟩
          next => exact ⟨hsingle, .inl rfl⟩

/-! ## Dice literals among the lexemes -/

theorem exists_delimiter_of_matches_dice (hw : Kind.Matches .dice w) :
    ∃ c ∈ w, isDelimiter c = true := by
  obtain ⟨parts, hparts, rfl⟩ := DiceParts.mem_dice_iff.mp hw
  exact ⟨parts.delimiter, by simp [DiceParts.text], hparts.delimiter⟩

theorem not_isDelimiter_of_matches (hkind : kind ≠ .dice) (hw : kind.Matches w) :
    ∀ c ∈ w, isDelimiter c = false := by
  cases kind with
  | dice => exact absurd rfl hkind
  | unknown => exact absurd hw not_matches_unknown
  | blank =>
      intro c hc
      have hseparator := isSeparator_of_matches_blank hw c hc
      by_contra hdelimiter
      have hnot := of_isDelimiter (p := (!isSeparator ·)) (by decide) (by simpa using hdelimiter)
      simp [hseparator] at hnot
  | number =>
      intro c hc
      exact not_isDelimiter_of_isDigit ((Pattern.mem_number.mp hw).2 c hc)
  | operator op =>
      cases Pattern.mem_char.mp hw
      cases op <;> exact List.forall_mem_singleton.mpr rfl
  | leftParen =>
      cases Pattern.mem_char.mp hw
      exact List.forall_mem_singleton.mpr rfl
  | rightParen =>
      cases Pattern.mem_char.mp hw
      exact List.forall_mem_singleton.mpr rfl

/-- A word that contains a delimiter is matched as a dice literal or not at all. -/
theorem eq_dice_of_mem (hw : kind.Matches w) (hc : c ∈ w) (hdelimiter : isDelimiter c = true) :
    kind = .dice := by
  by_contra hkind
  simp [not_isDelimiter_of_matches hkind hw c hc] at hdelimiter

theorem kind_unique (hne : w ≠ []) (hw : kind.Matches w) (hw' : kind'.Matches w) :
    kind = kind' := by
  by_cases hdelimiter : ∃ c ∈ w, isDelimiter c = true
  · obtain ⟨c, hc, hdelimiter⟩ := hdelimiter
    rw [eq_dice_of_mem hw hc hdelimiter, eq_dice_of_mem hw' hc hdelimiter]
  · -- neither kind is that of dice literals, so the first character tells both
    have hkind : ∀ {k : Kind}, k.Matches w → k ≠ .dice := by
      rintro _ hk rfl
      exact hdelimiter (exists_delimiter_of_matches_dice hk)
    obtain ⟨c, tail, rfl⟩ := List.exists_cons_of_ne_nil hne
    rw [← (simple_of_matches (hkind hw) hw List.prefix_rfl).1,
      ← (simple_of_matches (hkind hw') hw' List.prefix_rfl).1]

/-- A text has one longest match at most. -/
theorem IsLongest.unique (h : IsLongest text kind word) (h' : IsLongest text kind' word') :
    kind = kind' ∧ word = word' := by
  have hle := h'.longest kind word h.starts h.matched
  have hge := h.longest kind' word' h'.starts h'.matched
  obtain rfl : word = word' := (List.prefix_of_prefix_length_le h.starts h'.starts hle).eq_of_length
    (Nat.le_antisymm hle hge)
  exact ⟨kind_unique h.ne_nil h.matched h'.matched, rfl⟩

/-! ## The lexeme at the start of a text -/

/-- A dice literal at the start of a text is the longest match. -/
theorem isLongest_dice {parts : DiceParts} (h : DiceParts.first? text = some parts) :
    IsLongest text .dice parts.text := by
  obtain ⟨hparts, hstarts⟩ := DiceParts.wellFormed_of_first? h
  have hmatched : Kind.Matches .dice parts.text := DiceParts.mem_dice_iff.mpr ⟨parts, hparts, rfl⟩
  obtain ⟨d, hd, hdelimiter⟩ := exists_delimiter_of_matches_dice hmatched
  refine ⟨List.ne_nil_of_mem hd, hstarts, hmatched, ?_⟩
  intro kind w hw hkind
  by_cases hdice : kind = .dice
  · subst hdice
    obtain ⟨parts', hparts', rfl⟩ := DiceParts.mem_dice_iff.mp hkind
    obtain ⟨rest, rfl⟩ := hw
    obtain ⟨longest, hlongest, hle⟩ := DiceParts.length_le_of_first? hparts' rest
    obtain rfl : parts = longest := Option.some_inj.mp (h.symm.trans hlongest)
    exact hle
  · -- the word stops in front of the delimiter
    rcases List.prefix_or_prefix_of_prefix hw hstarts with hle | hle
    · exact hle.length_le
    · exact absurd (eq_dice_of_mem hkind (hle.subset hd) hdelimiter) hdice

theorem not_matches_dice (h : DiceParts.first? text = none) (hw : w <+: text) :
    ¬ Kind.Matches .dice w := by
  intro hdice
  obtain ⟨parts, hparts, rfl⟩ := DiceParts.mem_dice_iff.mp hdice
  obtain ⟨rest, rfl⟩ := hw
  obtain ⟨longest, hlongest, -⟩ := DiceParts.length_le_of_first? hparts rest
  cases h.symm.trans hlongest

/-- Where no dice literal starts, what is cut off is the longest match, or nothing matches. -/
theorem isLongest_simple (h : DiceParts.first? (c :: rest) = none) :
    IsLongest (c :: rest) (simple c rest).kind (simple c rest).text ∨
      simple c rest = ⟨.unknown, [c]⟩ ∧ Unmatched (c :: rest) := by
  have hother : ∀ {kind w}, w <+: c :: rest → Kind.Matches kind w → w ≠ [] →
      (simple c rest).kind = kind ∧ w.length ≤ (simple c rest).text.length := by
    intro kind w hw hkind hne
    obtain ⟨d, tail, rfl⟩ := List.exists_cons_of_ne_nil hne
    obtain ⟨rfl, htail⟩ := List.cons_prefix_cons.mp hw
    have hdice : kind ≠ .dice := by
      rintro rfl
      exact not_matches_dice h hw hkind
    exact simple_of_matches hdice hkind htail
  obtain ⟨⟨tail, htext, htail⟩, hunknown | hmatched⟩ := simple_cases c rest
  · refine .inr ⟨hunknown, fun kind w hw hkind => ?_⟩
    by_contra hne
    obtain ⟨rfl, -⟩ := hother hw hkind hne
    rw [hunknown] at hkind
    exact not_matches_unknown hkind
  · left
    refine ⟨by simp [htext], ?_, hmatched, fun kind w hw hkind => ?_⟩
    · rw [htext]
      exact (List.prefix_cons_inj c).mpr htail
    · by_cases hne : w = []
      · simp [hne]
      · exact (hother hw hkind hne).2

theorem breaksOff_eq_true_iff {parts : DiceParts} {next? : Option Char} :
    parts.breaksOff next? = true ↔ parts.count ≠ [] ∧
      (∃ d ∈ parts.sides, d.isDigit = false) ∧ parts.selection = [] ∧
      ∃ c ∈ ['k', 'K', 'd', 'D'], next? = some c := by
  have hmode : (next?.bind Literal.readMode?).isSome = true ↔
      ∃ c ∈ ['k', 'K', 'd', 'D'], next? = some c := by
    simp only [← Literal.isSome_readMode?_iff]
    cases next? <;> simp
  simp [DiceParts.breaksOff, hmode, and_assoc]

/-- The scanner's test for a literal that breaks off. -/
theorem breaksOff_iff {parts : DiceParts}
    (h : DiceParts.first? (parts.text ++ rest) = some parts) :
    parts.breaksOff rest.head? = true ↔ BreaksOff parts.text rest := by
  obtain ⟨hparts, -⟩ := DiceParts.wellFormed_of_first? h
  rw [breaksOff_eq_true_iff]
  constructor
  · rintro ⟨hcount, ⟨d, hd, hdigit⟩, hselection, hnext⟩
    have hsides : parts.sides ∈ Pattern.namedSides.matches' := by
      refine (Pattern.mem_sides.mp hparts.sides).resolve_left fun hpositive => ?_
      simp [Pattern.isDigit_of_mem_positive hpositive d hd] at hdigit
    refine ⟨DiceParts.mem_countedNamed_iff.mpr ⟨parts, hparts, rfl, hcount, hsides, hselection⟩,
      hnext, ?_⟩
    rintro ⟨w, hw, hmatched⟩
    -- the scanner has looked for a selection at this very place
    obtain ⟨tail, htext, hcut⟩ := DiceParts.first?_eq_some_iff.mp h
    have htail : parts.bang ++ rest = tail := by
      simpa [DiceParts.text, hselection] using htext
    have hnone : selectionRun rest = [] := by
      rw [← hselection, ← hcut.selection, ← htail, List.drop_left]
    have hnil := cutsLongest_selectionRun.longest hmatched hw
    rw [hnone, List.prefix_nil] at hnil
    obtain ⟨c, other, hcons, -⟩ := head_of_mem_selection hmatched
    cases hcons.symm.trans hnil
  · rintro ⟨hcounted, hnext, -⟩
    obtain ⟨other, hother, htext, hcount, hsides, hselection⟩ :=
      DiceParts.mem_countedNamed_iff.mp hcounted
    -- a text has one division into parts, so what the pattern says of some is said of these
    obtain rfl : parts = other := by
      have hfirst := DiceParts.first?_text hparts
      rw [htext, DiceParts.first?_text hother] at hfirst
      exact (Option.some_inj.mp hfirst).symm
    obtain ⟨d, tail, hcons, hdigit⟩ := Pattern.head_of_mem_namedSides hsides
    exact ⟨hcount, ⟨d, hcons ▸ List.mem_cons_self, hdigit⟩, hselection, hnext⟩

end Lexeme

end DiceNotation
