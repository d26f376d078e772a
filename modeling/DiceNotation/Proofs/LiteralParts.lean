import DiceNotation.Proofs.LiteralRuns

/-!
# The literal at the start of a text

The literal that is put together from the runs is well-formed, no well-formed literal at the start of
the text is longer, and the parts of a literal can be told from its text. The runs are cut greedily
one after the other; this loses nothing, because a part that reaches further than another reading
would let it leaves that reading nothing behind it.
-/

namespace DiceNotation

namespace Lexeme.DiceParts

variable {text : List Char}

/-- The parts are those that the runs cut off one after the other; `tail` is the text behind the
faces. -/
structure CutFrom (parts : DiceParts) (tail : List Char) : Prop where
  count : parts.count = [] ∨ parts.count ∈ Pattern.positive.matches'
  delimiter : isDelimiter parts.delimiter = true
  sides_ne_nil : parts.sides ≠ []
  sides : sidesRun (parts.sides ++ tail) = parts.sides
  bang : bangRun tail = parts.bang
  selection : selectionRun (tail.drop parts.bang.length) = parts.selection

theorem first?_eq_some_iff {parts : DiceParts} : first? text = some parts ↔
    ∃ tail, text = parts.count ++ parts.delimiter :: (parts.sides ++ tail) ∧
      parts.CutFrom tail := by
  constructor
  · intro h
    simp only [first?] at h
    split at h
    next => cases h
    next delimiter after hafter =>
      split at h
      next => cases h
      next hnot =>
        obtain ⟨hdelimiter, hsides⟩ : isDelimiter delimiter = true ∧ sidesRun after ≠ [] := by
          simpa using hnot
        -- what is dropped in front of a part is what was cut off before it
        obtain ⟨behind, hbehind⟩ := cutsLongest_positiveRun.starts text
        obtain ⟨tail, htail⟩ := cutsLongest_sidesRun.starts after
        have hbehind' := drop_of_append_eq hbehind
        have htail' := drop_of_append_eq htail
        rw [hbehind'] at hafter
        cases h
        refine ⟨tail, ?_, ⟨cutsLongest_positiveRun.matched text, hdelimiter, hsides, ?_, ?_, ?_⟩⟩
        · simp only [htail, ← hafter, hbehind]
        · simp only [htail]
        · simp only [htail']
        · simp only [htail', List.length_append, ← List.drop_drop]
  · rintro ⟨tail, rfl, h⟩
    have hcount : positiveRun (parts.count ++ parts.delimiter :: (parts.sides ++ tail)) =
        parts.count := by
      have hdelimiter := not_isDigit_of_isDelimiter h.delimiter
      rcases h.count with hnil | hpositive
      · rw [hnil]
        simp [positiveRun, hdelimiter]
      · rw [positiveRun_append hpositive]
        simp [hdelimiter]
    simp only [first?, hcount, List.drop_left, h.delimiter, h.sides, h.bang, h.selection,
      List.length_append, ← List.drop_drop, List.isEmpty_eq_false_iff.mpr h.sides_ne_nil,
      Bool.not_true, Bool.or_self, Bool.false_eq_true, if_false]

/-- The literal that is cut off is made of well-formed parts and stands at the start of the text. -/
theorem wellFormed_of_first? {parts : DiceParts} (h : first? text = some parts) :
    parts.WellFormed ∧ parts.text <+: text := by
  obtain ⟨tail, rfl, hcut⟩ := first?_eq_some_iff.mp h
  have hsides := cutsLongest_sidesRun.matched (parts.sides ++ tail)
  have hbang := cutsLongest_bangRun.matched tail
  have hselection := cutsLongest_selectionRun.matched (tail.drop parts.bang.length)
  rw [hcut.sides] at hsides
  rw [hcut.bang] at hbang
  rw [hcut.selection] at hselection
  refine ⟨⟨hcut.count, hcut.delimiter, hsides.resolve_left hcut.sides_ne_nil, hbang, hselection⟩, ?_⟩
  have htail : parts.bang ++ parts.selection <+: tail :=
    starts_append (hcut.bang ▸ cutsLongest_bangRun.starts tail)
      (hcut.selection ▸ cutsLongest_selectionRun.starts _)
  simpa [DiceParts.text] using htail

/-- A `!` or a selection behind the faces does not start with a digit. -/
theorem WellFormed.suffix_eq_nil {parts : DiceParts} (h : parts.WellFormed) (rest : List Char)
    (hdigit : ∃ c ∈ (parts.bang ++ (parts.selection ++ rest)).head?, c.isDigit = true) :
    parts.bang = [] ∧ parts.selection = [] := by
  obtain ⟨c, hhead, hc⟩ := hdigit
  rcases h.bang with hbang | hbang
  · refine ⟨hbang, h.selection.resolve_right fun hselection => ?_⟩
    obtain ⟨d, tail, hcons, hd, -⟩ := head_of_mem_selection hselection
    rw [hbang, hcons] at hhead
    obtain rfl : d = c := Option.some_inj.mp hhead
    simp [hd] at hc
  · rw [hbang] at hhead
    obtain rfl : '!' = c := Option.some_inj.mp hhead
    simp at hc

theorem WellFormed.selection_eq_nil {parts : DiceParts} (h : parts.WellFormed) (rest : List Char)
    (hbang : (parts.selection ++ rest).head? = some '!') : parts.selection = [] := by
  refine h.selection.resolve_right fun hselection => ?_
  obtain ⟨c, tail, hcons, -, hc⟩ := head_of_mem_selection hselection
  rw [hcons] at hbang
  exact hc (Option.some_inj.mp hbang)

theorem WellFormed.length_suffix_le {parts : DiceParts} (h : parts.WellFormed) {tail : List Char}
    (htail : tail = parts.bang ++ (parts.selection ++ rest)) :
    parts.bang.length + parts.selection.length ≤
      (bangRun tail).length + (selectionRun (tail.drop (bangRun tail).length)).length := by
  -- Either the same `!` is cut off, or one more: then the literal had no selection to lose.
  rcases bangRun_append h.bang (parts.selection ++ rest) with hbang | hhead
  · rw [htail, hbang, List.drop_left]
    refine Nat.add_le_add_left ?_ parts.bang.length
    rcases h.selection with hnil | hselection
    · simp [hnil]
    · exact (cutsLongest_selectionRun.longest hselection (List.prefix_append _ rest)).length_le
  · have hbang : parts.bang.length ≤ (bangRun tail).length := by
      rcases h.bang with hnil | hbang
      · simp [hnil]
      · rw [htail, hbang]
        exact le_rfl
    rw [h.selection_eq_nil rest hhead]
    exact hbang.trans (Nat.le_add_right _ _)

theorem WellFormed.head_suffix {parts : DiceParts} (h : parts.WellFormed) :
    ∀ c ∈ (parts.bang ++ parts.selection).head?, c.isDigit = false := by
  intro c hc
  by_contra hdigit
  obtain ⟨hbang, hselection⟩ := h.suffix_eq_nil [] ⟨c, by simpa using hc, by simpa using hdigit⟩
  simp [hbang, hselection] at hc

theorem WellFormed.head_selection {parts : DiceParts} (h : parts.WellFormed) :
    parts.selection.head? ≠ some '!' := fun hhead => by
  have hnil := h.selection_eq_nil [] (by simpa using hhead)
  simp [hnil] at hhead

/-- A dice literal at the start of a text is not longer than the one that is cut off. -/
theorem length_le_of_first? {parts : DiceParts} (h : parts.WellFormed) (rest : List Char) :
    ∃ longest, first? (parts.text ++ rest) = some longest ∧
      parts.text.length ≤ longest.text.length := by
  obtain ⟨after, hafter⟩ :
      ∃ after, after = parts.sides ++ (parts.bang ++ (parts.selection ++ rest)) := ⟨_, rfl⟩
  have hsides := cutsLongest_sidesRun.longest h.sides (hafter ▸ List.prefix_append parts.sides _)
  obtain ⟨tail, htail⟩ := cutsLongest_sidesRun.starts after
  refine ⟨⟨parts.count, parts.delimiter, sidesRun after, bangRun tail,
    selectionRun (tail.drop (bangRun tail).length)⟩, first?_eq_some_iff.mpr ⟨tail, ?_, ?_⟩, ?_⟩
  · have htext : parts.text ++ rest = parts.count ++ parts.delimiter :: after := by
      simp [DiceParts.text, hafter]
    rw [htext, htail]
  · exact
      { count := h.count
        delimiter := h.delimiter
        sides_ne_nil := hsides.ne_nil (Pattern.ne_nil_of_mem_sides h.sides)
        sides := congrArg sidesRun htail
        bang := rfl
        selection := rfl }
  · have hle : parts.sides.length + (parts.bang.length + parts.selection.length) ≤
        (sidesRun after).length + ((bangRun tail).length +
          (selectionRun (tail.drop (bangRun tail).length)).length) := by
      -- Either the same faces are cut off, or digits go on behind them: then there is no suffix.
      rcases sidesRun_append h.sides (parts.bang ++ (parts.selection ++ rest)) with
        hstop | hdigit
      · have hsuffix : tail = parts.bang ++ (parts.selection ++ rest) := by
          rw [← hafter] at hstop
          exact List.append_cancel_left (hstop ▸ htail.trans hafter)
        exact Nat.add_le_add hsides.length_le (h.length_suffix_le hsuffix)
      · obtain ⟨hbang, hselection⟩ := h.suffix_eq_nil rest hdigit
        rw [hbang, hselection]
        exact hsides.length_le.trans (Nat.le_add_right _ _)
    simp only [DiceParts.text, List.length_append, List.length_cons]
    omega

/-- The parts of a literal can be told from its text. -/
theorem first?_text {parts : DiceParts} (h : parts.WellFormed) : first? parts.text = some parts := by
  have hsides : sidesRun (parts.sides ++ (parts.bang ++ parts.selection)) = parts.sides := by
    refine (sidesRun_append h.sides _).resolve_right ?_
    rintro ⟨c, hc, hdigit⟩
    simp [h.head_suffix c hc] at hdigit
  have hbang : bangRun (parts.bang ++ parts.selection) = parts.bang :=
    (bangRun_append h.bang _).resolve_right h.head_selection
  have hselection : selectionRun parts.selection = parts.selection := by
    rcases h.selection with hnil | hmem
    · rw [hnil]
      rfl
    · simpa using selectionRun_append hmem []
  exact first?_eq_some_iff.mpr ⟨parts.bang ++ parts.selection, by simp [DiceParts.text], h.count,
    h.delimiter, Pattern.ne_nil_of_mem_sides h.sides, hsides, hbang, by
      rw [List.drop_left, hselection]⟩

end Lexeme.DiceParts

end DiceNotation
