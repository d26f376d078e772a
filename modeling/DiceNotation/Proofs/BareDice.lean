import DiceNotation.Proofs.Replacement

/-!
# A `d` without faces

Whether a `d` gets a tag depends on the next character only. The search takes this character into
the match and goes on behind it, so it could miss a `d` there; but a character that ends a literal
is none. It makes no difference either whether the count in front is part of the match.
-/

namespace DiceNotation

namespace Alias

variable {tag rest : List Char} {c : Char}

/-! ## Place by place -/

/-- The characters that belong to the same literal as a `d` in front of them. -/
def goesOn (c : Char) : Bool :=
  c.isAlphanum || c == '%' || c == '\u017f' || c == '\u212a'

/-- What is written for the first character of a text: a `d` without faces gets a tag. -/
def dieImage (tag : List Char) : List Char → List Char
  | [] => []
  | c :: rest =>
    if (c == 'd' || c == 'D') && !rest.head?.any goesOn then 'd' :: tag else [c]

theorem isAlphanum_toLower (c : Char) : c.toLower.isAlphanum = c.isAlphanum := by
  by_cases hupper : c.isUpper = true
  · have halpha : c.isAlpha = true := by rw [Char.isAlpha, hupper, Bool.true_or]
    simp [Char.isAlphanum, halpha]
  · rw [Char.toLower_eq_of_not_isUpper hupper]

theorem continuesDie_eq_goesOn (c : Char) : continuesDie c = goesOn c := by
  by_cases hs : c = '\u017f'
  · rw [hs]
    decide
  by_cases hk : c = '\u212a'
  · rw [hk]
    decide
  have hfold : foldCase c = c.toLower := by rw [foldCase, if_neg hs, if_neg hk]
  rw [continuesDie, goesOn, hfold, isAlphanum_toLower, beq_false_of_ne hs, beq_false_of_ne hk,
    Bool.or_false, Bool.or_false]

theorem foldCase_eq_d_iff : foldCase c = 'd' ↔ (c == 'd' || c == 'D') = true := by
  constructor
  · exact isDelimiter_of_foldCase
  · intro h
    simp only [Bool.or_eq_true, beq_iff_eq] at h
    rcases h with rfl | rfl <;> decide

/-- The search writes for each character what it would write if it began there. -/
theorem replaceAll_bareDie_cons (tag : List Char) (c : Char) (rest : List Char) :
    (replaceAll (bareDie tag) (c :: rest)).1 =
      dieImage tag (c :: rest) ++ (replaceAll (bareDie tag) rest).1 := by
  by_cases hd : foldCase c = 'd'
  · by_cases hrest : rest.head?.any goesOn = true
    · obtain ⟨next, hnext, hgoes⟩ := (Option.any_eq_true _ _).mp hrest
      cases rest with
      | nil => cases hnext
      | cons other rest =>
          obtain rfl := Option.some_inj.mp hnext
          have hnone : bareDie tag c (other :: rest) = none := by
            simp [bareDie, hd, continuesDie_eq_goesOn, hgoes]
          rw [replaceAll_cons_of_none hnone, dieImage, hrest]
          simp
    · have hends : ∀ next ∈ rest.head?, continuesDie next = false := by
        intro next hnext
        rw [continuesDie_eq_goesOn]
        by_contra hgoes
        exact hrest ((Option.any_eq_true _ _).mpr ⟨next, hnext, by simpa using hgoes⟩)
      rw [replaceAll_bareDie tag hd hends, dieImage, foldCase_eq_d_iff.mp hd]
      simp [hrest]
  · have hnone : bareDie tag c rest = none := if_pos hd
    rw [replaceAll_cons_of_none hnone, dieImage]
    simp [foldCase_eq_d_iff.not.mp hd]

theorem replaceAll_bareDie_eq (tag text : List Char) : (replaceAll (bareDie tag) text).1 =
    (List.range text.length).flatMap fun i => dieImage tag (text.drop i) := by
  induction text with
  | nil => exact replaceAll_nil _
  | cons c rest ih =>
      rw [replaceAll_bareDie_cons, ih, List.length_cons, List.range_succ_eq_map, List.flatMap_cons,
        List.flatMap_map]
      rfl

/-- The first character stays the same up to case. -/
theorem exists_dieImage (tag : List Char) (c : Char) (rest : List Char) :
    ∃ first more, dieImage tag (c :: rest) = first :: more ∧ foldCase first = foldCase c := by
  rw [dieImage]
  split
  next h =>
    have hd := (Bool.and_eq_true _ _).mp h
    exact ⟨'d', tag, rfl, by rw [foldCase_eq_d_iff.mpr hd.1]; decide⟩
  next => exact ⟨c, [], rfl, rfl⟩

/-- No `d` without faces is left. -/
theorem unmatched_bareDie (htag : Guarded continues (('d' :: tag).map foldCase))
    (text : List Char) : Unmatched (bareDie tag) (replaceAll (bareDie tag) text).1 := by
  induction text with
  | nil =>
      rw [replaceAll_nil]
      trivial
  | cons c rest ih =>
      rw [replaceAll_bareDie_cons, dieImage]
      split
      next => exact (spares_bareDie tag).unmatched_append htag ih
      next h =>
        refine ⟨spares_bareDie tag c _ ?_, ih⟩
        -- a `d` that stays stands before a character that goes on, and still does
        intro hd
        have hrest : rest.head?.any goesOn = true := by
          simpa [foldCase_eq_d_iff.mp hd] using h
        obtain ⟨next, hnext, hgoes⟩ := (Option.any_eq_true _ _).mp hrest
        cases rest with
        | nil => cases hnext
        | cons other rest =>
            obtain rfl := Option.some_inj.mp hnext
            obtain ⟨first, more, himage, hfirst⟩ := exists_dieImage tag other rest
            rw [replaceAll_bareDie_cons, himage]
            refine ⟨foldCase first, rfl, ?_⟩
            rw [hfirst, continues_foldCase, continuesDie_eq_goesOn, hgoes]

/-! ## The count in front -/

/-- The pattern of a `d` without faces that takes the count in front into the match. -/
def countedBareDie (tag : List Char) : Pattern := fun c rest =>
  let count := (c :: rest).takeWhile Char.isDigit
  match (c :: rest).dropWhile Char.isDigit with
  | [] => none
  | d :: behind =>
    (bareDie tag d behind).map fun found =>
      ⟨count.length + found.width, count ++ found.replacement⟩

theorem bareDie_of_isDigit (hc : c.isDigit = true) : bareDie tag c rest = none := by
  apply if_pos
  rw [foldCase_of_isDigit hc]
  rintro rfl
  cases hc

theorem replaceAll_bareDie_digits {count : List Char} (hcount : ∀ c ∈ count, c.isDigit = true)
    (rest : List Char) : replaceAll (bareDie tag) (count ++ rest) =
      (count ++ (replaceAll (bareDie tag) rest).1, (replaceAll (bareDie tag) rest).2) := by
  induction count with
  | nil => rfl
  | cons c count ih =>
      obtain ⟨hc, hcount⟩ := List.forall_mem_cons.mp hcount
      rw [List.cons_append, replaceAll_of_none (bareDie_of_isDigit hc), ih hcount, List.cons_append]

/-- A match with the count has the count, and behind it a match without. -/
theorem countedBareDie_cases (tag : List Char) (c : Char) (rest : List Char) :
    countedBareDie tag c rest = none ∧ bareDie tag c rest = none ∨
    ∃ count d behind found, c :: rest = count ++ d :: behind ∧ (∀ c ∈ count, c.isDigit = true) ∧
      bareDie tag d behind = some found ∧
      countedBareDie tag c rest =
        some ⟨count.length + found.width, count ++ found.replacement⟩ := by
  have hsplit : (c :: rest).takeWhile Char.isDigit ++ (c :: rest).dropWhile Char.isDigit =
      c :: rest := List.takeWhile_append_dropWhile
  have hcount : ∀ d ∈ (c :: rest).takeWhile Char.isDigit, d.isDigit = true :=
    fun d hd => List.all_eq_true.mp List.all_takeWhile d hd
  cases hbehind : (c :: rest).dropWhile Char.isDigit with
  | nil =>
      left
      have hdigit : c.isDigit = true := by
        rw [hbehind, List.append_nil] at hsplit
        exact hcount c (by rw [hsplit]; exact List.mem_cons_self)
      exact ⟨by simp [countedBareDie, hbehind], bareDie_of_isDigit hdigit⟩
  | cons d behind =>
      cases hfound : bareDie tag d behind with
      | some found =>
          right
          exact ⟨_, d, behind, found, by rw [← hbehind, hsplit], hcount, hfound,
            by simp [countedBareDie, hbehind, hfound]⟩
      | none =>
          left
          refine ⟨by simp [countedBareDie, hbehind, hfound], ?_⟩
          by_cases hdigit : c.isDigit = true
          · exact bareDie_of_isDigit hdigit
          · rw [List.dropWhile_cons_of_neg hdigit] at hbehind
            cases hbehind
            exact hfound

/-- The count is copied whether or not it is part of the match. -/
theorem replaceAll_countedBareDie (tag text : List Char) :
    replaceAll (countedBareDie tag) text = replaceAll (bareDie tag) text := by
  induction h : text.length using Nat.strongRecOn generalizing text with
  | ind n ih =>
      subst h
      cases text with
      | nil => rw [replaceAll, replaceAll]
      | cons c rest =>
          rcases countedBareDie_cases tag c rest with ⟨hcounted, hbare⟩ | hmatch
          · rw [replaceAll_of_none hcounted, replaceAll_of_none hbare, ih _ (by simp) rest rfl]
          · obtain ⟨count, d, behind, found, hsplit, hcount, hbare, hcounted⟩ := hmatch
            obtain ⟨taken, hfound⟩ := bareDie_eq_some hbare
            have hdrop : rest.drop (count.length + taken.length) = behind.drop taken.length := by
              have hboth := congrArg (List.drop (count.length + (taken.length + 1))) hsplit
              rwa [List.drop_length_add_append] at hboth
            rw [hfound] at hbare hcounted
            rw [replaceAll_of_some hcounted, hsplit, replaceAll_bareDie_digits hcount,
              replaceAll_of_some hbare]
            show (_ ++ (replaceAll _ (rest.drop (count.length + taken.length))).1, true) = _
            rw [ih _ (by simp) _ rfl, hdrop]
            simp

end Alias

end DiceNotation
