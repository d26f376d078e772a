import DiceNotation.Proofs.Aliases

/-!
# What replacement leaves

A text in which no match begins stays as it is, and it is the only one that does if every replacement
is longer than its match. A text that is put together again from copies and replacements is one of
these texts if no match begins in a replacement, and none begins in front of one that did not begin
there before.
-/

namespace DiceNotation.Alias

variable {pattern : Pattern} {c : Char} {rest text u v : List Char} {allowed : Char → Bool}

/-- A replacement copies one character or writes one replacement, and goes on. -/
@[elab_as_elim]
theorem replaceAll_induction (pattern : Pattern) {motive : List Char → Prop} (text : List Char)
    (nil : motive [])
    (copied : ∀ c rest, pattern c rest = none → motive rest → motive (c :: rest))
    (replaced : ∀ c rest found, pattern c rest = some found →
      motive (rest.drop (found.width - 1)) → motive (c :: rest)) : motive text :=
  replaceAll.induct pattern motive nil (fun c rest h _ _ _ ih => copied c rest h ih)
    (fun c rest found h _ _ _ ih => replaced c rest found h ih) text

/-! ## Texts without a match -/

/-- Nowhere in the text begins a match. -/
def Unmatched (pattern : Pattern) : List Char → Prop
  | [] => True
  | c :: rest => pattern c rest = none ∧ Unmatched pattern rest

theorem Unmatched.replaceAll_eq (h : Unmatched pattern text) :
    (replaceAll pattern text).1 = text := by
  induction text with
  | nil => exact replaceAll_nil pattern
  | cons c rest ih =>
      obtain ⟨hnone, hrest⟩ := h
      rw [replaceAll_cons_of_none hnone, ih hrest]

theorem found_eq_false_iff_unmatched :
    (replaceAll pattern text).2 = false ↔ Unmatched pattern text := by
  induction text using replaceAll_induction pattern with
  | nil =>
      rw [replaceAll]
      exact iff_of_true rfl trivial
  | copied c rest hnone ih =>
      rw [replaceAll_of_none hnone, ih]
      exact (and_iff_right hnone).symm
  | replaced c rest found hsome _ =>
      rw [replaceAll_of_some hsome]
      refine iff_of_false (by simp) ?_
      rintro ⟨hnone, -⟩
      cases hsome.symm.trans hnone

/-- A piece in which no match begins, in front of a text without one. -/
theorem Spares.unmatched_append (h : Spares pattern allowed)
    (hu : Guarded allowed (u.map foldCase)) (hv : Unmatched pattern v) :
    Unmatched pattern (u ++ v) := by
  induction u with
  | nil => exact hv
  | cons c u ih => exact ⟨h.eq_none hu v, ih hu.2⟩

/-! ## Lengths -/

/-- Every replacement is longer than its match. -/
def Lengthens (pattern : Pattern) : Prop :=
  ∀ c rest found, pattern c rest = some found →
    0 < found.width ∧ found.width < found.replacement.length

theorem length_le_replaceAll (h : Lengthens pattern) (text : List Char) :
    text.length ≤ (replaceAll pattern text).1.length := by
  induction text using replaceAll_induction pattern with
  | nil => exact Nat.zero_le _
  | copied c rest hnone ih =>
      rw [replaceAll_cons_of_none hnone]
      exact Nat.succ_le_succ ih
  | replaced c rest found hsome ih =>
      obtain ⟨hwidth, hlonger⟩ := h c rest found hsome
      rw [replaceAll_cons_of_some hsome, List.length_append, List.length_cons]
      rw [List.length_drop] at ih
      omega

theorem length_lt_replaceAll (h : Lengthens pattern) (hfound : (replaceAll pattern text).2 = true) :
    text.length < (replaceAll pattern text).1.length := by
  induction text using replaceAll_induction pattern with
  | nil =>
      rw [replaceAll] at hfound
      cases hfound
  | copied c rest hnone ih =>
      rw [replaceAll_of_none hnone] at hfound
      rw [replaceAll_cons_of_none hnone]
      exact Nat.succ_lt_succ (ih hfound)
  | replaced c rest found hsome _ =>
      obtain ⟨hwidth, hlonger⟩ := h c rest found hsome
      have hle := length_le_replaceAll h (rest.drop (found.width - 1))
      rw [replaceAll_cons_of_some hsome, List.length_append, List.length_cons]
      rw [List.length_drop] at hle
      omega

/-- A pattern that lengthens has found nothing exactly if the text is what it was. -/
theorem found_eq_false_iff (h : Lengthens pattern) :
    (replaceAll pattern text).2 = false ↔ (replaceAll pattern text).1 = text := by
  constructor
  · intro hfound
    exact (found_eq_false_iff_unmatched.mp hfound).replaceAll_eq
  · intro hsame
    by_contra hfound
    have hlt := length_lt_replaceAll h (by simpa using hfound)
    rw [hsame] at hlt
    exact absurd hlt (Nat.lt_irrefl _)

/-- A match of a `d` without faces is the `d`, or the `d` and the next character. -/
theorem bareDie_eq_some {tag : List Char} {found : Match} (h : bareDie tag c rest = some found) :
    ∃ behind, found = ⟨behind.length + 1, 'd' :: tag ++ behind⟩ := by
  unfold bareDie at h
  split at h
  next => cases h
  next =>
    split at h
    next =>
      cases h
      exact ⟨[], by simp⟩
    next next _ =>
      split at h
      next => cases h
      next =>
        cases h
        exact ⟨[next], rfl⟩

theorem lengthens_bareDie {tag : List Char} (htag : tag ≠ []) : Lengthens (bareDie tag) := by
  have hlength : 0 < tag.length := List.length_pos_iff.mpr htag
  intro c rest found h
  obtain ⟨behind, rfl⟩ := bareDie_eq_some h
  refine ⟨Nat.succ_pos _, ?_⟩
  simp only [List.cons_append, List.length_cons, List.length_append]
  omega

theorem lengthens_word {letters replacement : List Char} (hne : letters ≠ [])
    (hlonger : letters.length < replacement.length) : Lengthens (word letters replacement) := by
  intro c rest found h
  obtain ⟨-, hfound⟩ := Option.ite_none_right_eq_some.mp h
  obtain rfl := Option.some_inj.mp hfound
  exact ⟨List.length_pos_iff.mpr hne, hlonger⟩

end DiceNotation.Alias
