import DiceNotation.Proofs.PatternWords

/-!
# Runs at the start of a text

Each part of a dice literal is cut off the front of a text as far as it goes: what is cut off is a
word of the part's pattern, and no word of the pattern at the start of the text is longer.
-/

namespace DiceNotation

open RegularExpression

namespace DiceKind

/-- The tag that a text starts with is the only one that it starts with. -/
theorem ofStart?_eq_some_iff {text : List Char} {kind : DiceKind} :
    ofStart? text = some kind ↔ kind ∈ tagged ∧ kind.foldedTag <+: text.map Char.toLower := by
  have hapart : ∀ a ∈ tagged, ∀ b ∈ tagged, a.foldedTag <+: b.foldedTag → a = b := by decide
  have hfound : ∀ {found}, ofStart? text = some found →
      found ∈ tagged ∧ found.foldedTag <+: text.map Char.toLower := by
    intro found h
    have hstarts := List.find?_some h
    exact ⟨List.mem_of_find?_eq_some h, startsFolded_iff.mp hstarts⟩
  refine ⟨hfound, ?_⟩
  rintro ⟨hkind, hstarts⟩
  cases h : ofStart? text with
  | none =>
      have hnot := List.find?_eq_none.mp h kind hkind
      exact absurd (startsFolded_iff.mpr hstarts) hnot
  | some found =>
      obtain ⟨hmem, hstarts'⟩ := hfound h
      rcases List.prefix_or_prefix_of_prefix hstarts hstarts' with hle | hle
      · rw [hapart kind hkind found hmem hle]
      · rw [hapart found hmem kind hkind hle]

theorem length_foldedTag (kind : DiceKind) : kind.foldedTag.length = kind.tag.length :=
  List.length_map _

end DiceKind

namespace Lexeme

/-- The run of a text is its longest start that the pattern generates, or empty if there is none. -/
structure CutsLongest (run : List Char → List Char) (pattern : RegularExpression Char) : Prop where
  starts : ∀ text, run text <+: text
  matched : ∀ text, run text = [] ∨ run text ∈ pattern.matches'
  longest : ∀ {w text}, w ∈ pattern.matches' → w <+: text → w <+: run text

variable {w rest text : List Char}

theorem starts_append {u v : List Char} (hu : u <+: text) (hv : v <+: text.drop u.length) :
    u ++ v <+: text := by
  obtain ⟨rest, rfl⟩ := hu
  rw [List.drop_left] at hv
  exact (List.prefix_append_right_inj u).mpr hv

theorem drop_of_append_eq {u v : List Char} (h : u ++ v = text) : text.drop u.length = v := by
  rw [← h, List.drop_left]

/-! ## Numbers -/

theorem positiveRun_append (hw : w ∈ Pattern.positive.matches') (rest : List Char) :
    positiveRun (w ++ rest) = w ++ rest.takeWhile Char.isDigit := by
  obtain ⟨c, digits, rfl, ⟨hc, hzero⟩, hdigits⟩ := Pattern.mem_positive.mp hw
  simp [positiveRun, hc, hzero, List.takeWhile_append_of_pos hdigits]

theorem cutsLongest_positiveRun : CutsLongest positiveRun Pattern.positive where
  starts text := by
    cases text with
    | nil => exact List.nil_prefix
    | cons c rest =>
        rw [positiveRun]
        split
        · exact (List.prefix_cons_inj c).mpr (List.takeWhile_prefix _)
        · exact List.nil_prefix
  matched text := by
    cases text with
    | nil => exact .inl rfl
    | cons c rest =>
        rw [positiveRun]
        split
        next h =>
          refine .inr (Pattern.mem_positive.mpr ⟨c, _, rfl, by simpa using h, ?_⟩)
          exact List.all_eq_true.mp List.all_takeWhile
        next => exact .inl rfl
  longest := by
    rintro w _ hw ⟨rest, rfl⟩
    rw [positiveRun_append hw]
    exact List.prefix_append w _

/-! ## Faces -/

theorem tagRun_append {kind : DiceKind} (hkind : kind ∈ DiceKind.tagged)
    (hw : w.map Char.toLower = kind.foldedTag) (rest : List Char) : tagRun (w ++ rest) = w := by
  have hstart : DiceKind.ofStart? (w ++ rest) = some kind :=
    DiceKind.ofStart?_eq_some_iff.mpr ⟨hkind, by simp [hw]⟩
  have hlength : kind.tag.length = w.length := by
    rw [← kind.length_foldedTag, ← hw, List.length_map]
  simp only [tagRun, hstart, hlength]
  exact List.take_left

theorem tagRun_eq_nil_or (text : List Char) : tagRun text = [] ∨
    ∃ kind ∈ DiceKind.tagged, (tagRun text).map Char.toLower = kind.foldedTag := by
  rw [tagRun]
  split
  next kind hstart =>
    obtain ⟨hkind, hstarts⟩ := DiceKind.ofStart?_eq_some_iff.mp hstart
    refine .inr ⟨kind, hkind, ?_⟩
    rw [List.map_take, ← kind.length_foldedTag]
    exact (List.prefix_iff_eq_take.mp hstarts).symm
  next => exact .inl rfl

theorem tagRun_starts (text : List Char) : tagRun text <+: text := by
  rw [tagRun]
  split
  next => exact List.take_prefix _ _
  next => exact List.nil_prefix

theorem tagRun_eq_nil {c : Char} (h : c.isDigit = true ∨ c = '%') : tagRun (c :: rest) = [] := by
  refine (tagRun_eq_nil_or (c :: rest)).resolve_right ?_
  rintro ⟨kind, hkind, htag⟩
  obtain ⟨d, tail, hcons, hdigit, hpercent⟩ := DiceKind.head_of_tag hkind htag
  have hstarts := hcons ▸ tagRun_starts (c :: rest)
  obtain rfl : d = c := (List.cons_prefix_cons.mp hstarts).1
  simp [hdigit, hpercent] at h

theorem percentRun_eq_nil {c : Char} (hc : c ≠ '%') : percentRun (c :: rest) = [] := by
  simp [percentRun, hc]

theorem sidesRun_of_isDigit {c : Char} (hc : c.isDigit = true) :
    sidesRun (c :: rest) = positiveRun (c :: rest) := by
  have hpercent : c ≠ '%' := by
    rintro rfl
    simp at hc
  simp [sidesRun, percentRun_eq_nil hpercent, tagRun_eq_nil (.inl hc)]

theorem sidesRun_percent : sidesRun ('%' :: rest) = ['%'] := by
  simp [sidesRun, positiveRun, percentRun, tagRun_eq_nil]

theorem sidesRun_of_not {c : Char} (hdigit : c.isDigit = false) (hpercent : c ≠ '%') :
    sidesRun (c :: rest) = tagRun (c :: rest) := by
  simp [sidesRun, positiveRun, hdigit, percentRun_eq_nil hpercent]

theorem sidesRun_append_of_mem_positive (hw : w ∈ Pattern.positive.matches') (rest : List Char) :
    sidesRun (w ++ rest) = w ++ rest.takeWhile Char.isDigit := by
  rw [← positiveRun_append hw]
  obtain ⟨c, digits, rfl, ⟨hc, -⟩, -⟩ := Pattern.mem_positive.mp hw
  exact sidesRun_of_isDigit hc

/-- Faces that are not written as a number end on their own. -/
theorem sidesRun_append_of_mem_namedSides (hw : w ∈ Pattern.namedSides.matches')
    (rest : List Char) : sidesRun (w ++ rest) = w := by
  rcases Pattern.mem_namedSides.mp hw with rfl | ⟨kind, hkind, htag⟩
  · exact sidesRun_percent
  · obtain ⟨c, tail, rfl, hdigit, hpercent⟩ := DiceKind.head_of_tag hkind htag
    rw [List.cons_append, sidesRun_of_not hdigit hpercent]
    exact tagRun_append hkind htag rest

/-- Faces go on behind a word of their pattern only with a digit. -/
theorem sidesRun_append (hw : w ∈ Pattern.sides.matches') (rest : List Char) :
    sidesRun (w ++ rest) = w ∨ ∃ c ∈ rest.head?, c.isDigit = true := by
  rcases Pattern.mem_sides.mp hw with hw | hw
  · cases rest with
    | nil => exact .inl (by simpa using sidesRun_append_of_mem_positive hw [])
    | cons c rest =>
        by_cases hc : c.isDigit = true
        · exact .inr ⟨c, rfl, hc⟩
        · exact .inl (by simpa [hc] using sidesRun_append_of_mem_positive hw (c :: rest))
  · exact .inl (sidesRun_append_of_mem_namedSides hw rest)

theorem cutsLongest_sidesRun : CutsLongest sidesRun Pattern.sides where
  starts text := by
    cases text with
    | nil => exact List.nil_prefix
    | cons c rest =>
        by_cases hdigit : c.isDigit = true
        · rw [sidesRun_of_isDigit hdigit]
          exact cutsLongest_positiveRun.starts _
        · by_cases hpercent : c = '%'
          · rw [hpercent, sidesRun_percent]
            exact List.prefix_append ['%'] rest
          · rw [sidesRun_of_not (by simpa using hdigit) hpercent]
            exact tagRun_starts _
  matched text := by
    cases text with
    | nil => exact .inl rfl
    | cons c rest =>
        by_cases hdigit : c.isDigit = true
        · rw [sidesRun_of_isDigit hdigit]
          exact (cutsLongest_positiveRun.matched _).imp_right fun h => Pattern.mem_sides.mpr (.inl h)
        · by_cases hpercent : c = '%'
          · rw [hpercent, sidesRun_percent]
            exact .inr (Pattern.mem_sides.mpr (.inr (Pattern.mem_namedSides.mpr (.inl rfl))))
          · rw [sidesRun_of_not (by simpa using hdigit) hpercent]
            exact (tagRun_eq_nil_or _).imp_right fun h =>
              Pattern.mem_sides.mpr (.inr (Pattern.mem_namedSides.mpr (.inr h)))
  longest := by
    rintro w _ hw ⟨rest, rfl⟩
    rcases Pattern.mem_sides.mp hw with hw | hw
    · rw [sidesRun_append_of_mem_positive hw]
      exact List.prefix_append w _
    · rw [sidesRun_append_of_mem_namedSides hw]

/-! ## Selections -/

theorem bangRun_append (hw : w = [] ∨ w = ['!']) (rest : List Char) :
    bangRun (w ++ rest) = w ∨ rest.head? = some '!' := by
  rcases hw with rfl | rfl
  · cases rest with
    | nil => exact .inl rfl
    | cons c rest =>
        by_cases hc : c = '!'
        · exact .inr (congrArg some hc)
        · exact .inl (by simp [bangRun, hc])
  · exact .inl rfl

theorem cutsLongest_bangRun : CutsLongest bangRun Pattern.bang where
  starts text := by
    unfold bangRun
    split
    next rest => exact List.prefix_append ['!'] rest
    next => exact List.nil_prefix
  matched text := by
    unfold bangRun
    split
    next => exact .inr rfl
    next => exact .inl rfl
  longest := by
    rintro _ _ rfl ⟨rest, rfl⟩
    exact List.prefix_rfl

theorem directionRun_cons_of_isSome {c : Char} (h : (Literal.readDirection? c).isSome = true) :
    directionRun (c :: rest) = [c] := by
  rw [directionRun, if_pos h]

theorem directionRun_cons_of_isDigit {c : Char} (h : c.isDigit = true) :
    directionRun (c :: rest) = [] := by
  rw [directionRun, Literal.readDirection?_of_isDigit h]
  rfl

theorem selectionRun_cons {c : Char} {direction digits : List Char}
    (hmode : (Literal.readMode? c).isSome = true) (hdirection : directionRun rest = direction)
    (hdigits : positiveRun (rest.drop direction.length) = digits) (hne : digits ≠ []) :
    selectionRun (c :: rest) = c :: direction ++ digits := by
  simp [selectionRun, hmode, hdirection, hdigits, hne]

theorem selectionRun_append (hw : w ∈ Pattern.selection.matches') (rest : List Char) :
    selectionRun (w ++ rest) = w ++ rest.takeWhile Char.isDigit := by
  obtain ⟨c, direction, digits, rfl, hmode, hdirection, hdigits⟩ := Pattern.mem_selection.mp hw
  have hdirectionRun : directionRun (direction ++ (digits ++ rest)) = direction := by
    rcases hdirection with rfl | ⟨d, rfl, hd⟩
    · obtain ⟨d, _, rfl, ⟨hd, -⟩, -⟩ := Pattern.mem_positive.mp hdigits
      exact directionRun_cons_of_isDigit hd
    · exact directionRun_cons_of_isSome hd
  have hdigitsRun : positiveRun ((direction ++ (digits ++ rest)).drop direction.length) =
      digits ++ rest.takeWhile Char.isDigit := by
    rw [List.drop_left, positiveRun_append hdigits]
  have hne : digits ++ rest.takeWhile Char.isDigit ≠ [] :=
    List.append_ne_nil_of_left_ne_nil (Pattern.ne_nil_of_mem_positive hdigits) _
  simpa using selectionRun_cons hmode hdirectionRun hdigitsRun hne

theorem directionRun_eq_nil_or (text : List Char) : directionRun text = [] ∨
    ∃ d, directionRun text = [d] ∧ (Literal.readDirection? d).isSome = true := by
  cases text with
  | nil => exact .inl rfl
  | cons d rest =>
      rw [directionRun]
      split
      next h => exact .inr ⟨d, rfl, h⟩
      next => exact .inl rfl

theorem directionRun_starts (text : List Char) : directionRun text <+: text := by
  cases text with
  | nil => exact List.nil_prefix
  | cons d rest =>
      rw [directionRun]
      split
      next => exact List.prefix_append [d] rest
      next => exact List.nil_prefix

theorem cutsLongest_selectionRun : CutsLongest selectionRun Pattern.selection where
  starts text := by
    cases text with
    | nil => exact List.nil_prefix
    | cons c rest =>
        simp only [selectionRun]
        split
        next =>
          exact (List.prefix_cons_inj c).mpr
            (starts_append (directionRun_starts rest) (cutsLongest_positiveRun.starts _))
        next => exact List.nil_prefix
  matched text := by
    cases text with
    | nil => exact .inl rfl
    | cons c rest =>
        simp only [selectionRun]
        split
        next h =>
          obtain ⟨hmode, hne⟩ := (Bool.and_eq_true _ _).mp h
          have hdigits := (cutsLongest_positiveRun.matched
            (rest.drop (directionRun rest).length)).resolve_left (by simpa using hne)
          exact .inr (Pattern.mem_selection.mpr
            ⟨c, _, _, rfl, hmode, directionRun_eq_nil_or rest, hdigits⟩)
        next => exact .inl rfl
  longest := by
    rintro w _ hw ⟨rest, rfl⟩
    rw [selectionRun_append hw]
    exact List.prefix_append w _

/-- A selection starts with a letter, and not with a character that would be part of the faces or
the `!` in front of it. -/
theorem head_of_mem_selection (hw : w ∈ Pattern.selection.matches') :
    ∃ c tail, w = c :: tail ∧ c.isDigit = false ∧ c ≠ '!' := by
  obtain ⟨c, direction, digits, rfl, hmode, -, -⟩ := Pattern.mem_selection.mp hw
  refine ⟨c, direction ++ digits, rfl, ?_⟩
  simpa using Literal.of_isSome_readMode? (p := fun c => !c.isDigit && c != '!') (by decide) hmode

end Lexeme

end DiceNotation
