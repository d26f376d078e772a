import DiceNotation.GameSystem.Alias
import DiceNotation.Proofs.PatternWords

/-!
# Replacement of aliases

Replacement goes through a text from left to right. So a piece in which a pattern finds nothing,
whatever stands behind it, is copied, and the search goes on behind it. All patterns of aliases begin
with a `d`, and the character behind it decides: a piece is copied if behind each of its `d` stands
a character that the pattern does not go on with.
-/

namespace DiceNotation.Alias

variable {pattern : Pattern} {c : Char} {piece rest u v : List Char} {allowed wider : Char → Bool}

/-! ## Letters in any case -/

theorem foldCase_of_isAlpha (h : c.isAlpha = true) : foldCase c = c.toLower := by
  have hs : c ≠ '\u017f' := by
    rintro rfl
    cases h
  have hk : c ≠ '\u212a' := by
    rintro rfl
    cases h
  rw [foldCase, if_neg hs, if_neg hk]

/-- Only `s` and `k` are folded from more than the two cases of a letter. -/
theorem toLower_of_foldCase {l : Char} (hs : l ≠ 's') (hk : l ≠ 'k') (h : foldCase c = l) :
    c.toLower = l := by
  unfold foldCase at h
  split at h
  next => exact absurd h.symm hs
  next =>
    split at h
    next => exact absurd h.symm hk
    next => exact h

theorem isDelimiter_of_foldCase (h : foldCase c = 'd') : isDelimiter c = true := by
  have hlower : c.toLower = 'd' := toLower_of_foldCase (by decide) (by decide) h
  rw [isDelimiter_iff]
  simpa using (toLower_eq_iff rfl).mp hlower

theorem foldCase_of_isDigit (h : c.isDigit = true) : foldCase c = c := by
  simpa using of_isDigit (p := fun c => foldCase c == c) (by decide) h

theorem eq_percent_of_foldCase (h : foldCase c = '%') : c = '%' := by
  have hlower : c.toLower = '%' := toLower_of_foldCase (by decide) (by decide) h
  by_cases hupper : c.isUpper = true
  · have hletter : c.toLower.isLower = true := by
      rw [Char.isLower_toLower_eq_isAlpha, Char.isAlpha, hupper, Bool.true_or]
    rw [hlower] at hletter
    cases hletter
  · rwa [Char.toLower_eq_of_not_isUpper hupper] at hlower

/-! ## Copies -/

theorem replaceAll_nil (pattern : Pattern) : (replaceAll pattern []).1 = [] := by
  rw [replaceAll]

theorem replaceAll_of_none (h : pattern c rest = none) :
    replaceAll pattern (c :: rest) =
      (c :: (replaceAll pattern rest).1, (replaceAll pattern rest).2) := by
  rw [replaceAll, h]

theorem replaceAll_of_some {found : Match} (h : pattern c rest = some found) :
    replaceAll pattern (c :: rest) =
      (found.replacement ++ (replaceAll pattern (rest.drop (found.width - 1))).1, true) := by
  rw [replaceAll, h]

theorem replaceAll_cons_of_none (h : pattern c rest = none) :
    (replaceAll pattern (c :: rest)).1 = c :: (replaceAll pattern rest).1 := by
  rw [replaceAll_of_none h]

theorem replaceAll_cons_of_some {found : Match} (h : pattern c rest = some found) :
    (replaceAll pattern (c :: rest)).1 =
      found.replacement ++ (replaceAll pattern (rest.drop (found.width - 1))).1 := by
  rw [replaceAll_of_some h]

/-- The piece is copied, whatever stands behind it. -/
def Inert (pattern : Pattern) (piece : List Char) : Prop :=
  ∀ rest, (replaceAll pattern (piece ++ rest)).1 = piece ++ (replaceAll pattern rest).1

/-! ## What stands behind a `d` -/

/-- In a text in lower case, every `d` stands before an allowed character. -/
def Guarded (allowed : Char → Bool) : List Char → Prop
  | [] => True
  | c :: rest => (c = 'd' → ∃ next ∈ rest.head?, allowed next = true) ∧ Guarded allowed rest

theorem Guarded.append (hu : Guarded allowed u) (hv : Guarded allowed v) :
    Guarded allowed (u ++ v) := by
  induction u with
  | nil => exact hv
  | cons c u ih =>
      obtain ⟨hc, hu⟩ := hu
      refine ⟨?_, ih hu⟩
      intro hd
      obtain ⟨next, hnext, hallowed⟩ := hc hd
      have hhead : (u ++ v).head? = some next := by
        rw [List.head?_append, Option.mem_def.mp hnext]
        rfl
      exact ⟨next, hhead, hallowed⟩

theorem guarded_of_not_mem (h : 'd' ∉ u) : Guarded allowed u := by
  induction u with
  | nil => trivial
  | cons c u ih =>
      obtain ⟨hc, hu⟩ := not_or.mp (List.mem_cons.not.mp h)
      refine ⟨?_, ih hu⟩
      intro hd
      exact absurd hd.symm hc

theorem Guarded.of_append (h : Guarded allowed (u ++ v)) : Guarded allowed v := by
  induction u with
  | nil => exact h
  | cons c u ih => exact ih h.2

/-- A piece that ends in front of a character that is not allowed has no `d` at its end. -/
theorem Guarded.of_append_cons (h : Guarded allowed (u ++ c :: v)) (hc : allowed c = false) :
    Guarded allowed u := by
  induction u with
  | nil => trivial
  | cons b u ih =>
      obtain ⟨hb, hu⟩ := h
      refine ⟨?_, ih hu⟩
      intro hd
      obtain ⟨next, hnext, hallowed⟩ := hb hd
      cases u with
      | nil =>
          obtain rfl : c = next := Option.some_inj.mp hnext
          rw [hc] at hallowed
          cases hallowed
      | cons a u => exact ⟨next, hnext, hallowed⟩

theorem Guarded.mono (h : Guarded allowed u) (hle : ∀ c, allowed c = true → wider c = true) :
    Guarded wider u := by
  induction u with
  | nil => trivial
  | cons c u ih =>
      obtain ⟨hc, hu⟩ := h
      refine ⟨?_, ih hu⟩
      intro hd
      obtain ⟨next, hnext, hallowed⟩ := hc hd
      exact ⟨next, hnext, hle next hallowed⟩

/-- The pattern matches only where a `d` stands before a character that is not allowed. -/
def Spares (pattern : Pattern) (allowed : Char → Bool) : Prop :=
  ∀ c rest, (foldCase c = 'd' → ∃ next ∈ (rest.map foldCase).head?, allowed next = true) →
    pattern c rest = none

theorem Spares.eq_none (h : Spares pattern allowed)
    (hpiece : Guarded allowed ((c :: piece).map foldCase)) (rest : List Char) :
    pattern c (piece ++ rest) = none := by
  apply h
  intro hd
  obtain ⟨next, hnext, hallowed⟩ := hpiece.1 hd
  have hhead : ((piece ++ rest).map foldCase).head? = some next := by
    rw [List.map_append, List.head?_append, Option.mem_def.mp hnext]
    rfl
  exact ⟨next, hhead, hallowed⟩

theorem Spares.inert (h : Spares pattern allowed) (hpiece : Guarded allowed (piece.map foldCase)) :
    Inert pattern piece := by
  intro rest
  induction piece with
  | nil => rfl
  | cons c piece ih =>
      rw [List.cons_append, replaceAll_cons_of_none (h.eq_none hpiece rest), ih hpiece.2,
        List.cons_append]

/-! ## A `d` without faces -/

/-- Letters, digits and `%`. -/
def continues (c : Char) : Bool :=
  c.isAlphanum || c == '%'

theorem continues_foldCase (c : Char) : continues (foldCase c) = continuesDie c := by
  have hpercent : (foldCase c == '%') = (c == '%') := by
    rw [Bool.eq_iff_iff, beq_iff_eq, beq_iff_eq]
    refine ⟨eq_percent_of_foldCase, ?_⟩
    rintro rfl
    decide
  rw [continues, continuesDie, hpercent]

theorem spares_bareDie (tag : List Char) : Spares (bareDie tag) continues := by
  intro c rest h
  unfold bareDie
  split
  next => rfl
  next hd =>
    obtain ⟨next, hnext, hcontinues⟩ := h (not_not.mp hd)
    cases rest with
    | nil => cases hnext
    | cons d rest =>
        obtain rfl : foldCase d = next := Option.some_inj.mp hnext
        exact if_pos (continues_foldCase d ▸ hcontinues)

/-- The character behind the `d` is taken with it, but would be copied without it. -/
theorem replaceAll_bareDie (tag : List Char) (hc : foldCase c = 'd')
    (hrest : ∀ next ∈ rest.head?, continuesDie next = false) :
    (replaceAll (bareDie tag) (c :: rest)).1 =
      'd' :: tag ++ (replaceAll (bareDie tag) rest).1 := by
  cases rest with
  | nil =>
      have hfound : bareDie tag c [] = some ⟨1, 'd' :: tag⟩ := by simp [bareDie, hc]
      rw [replaceAll_cons_of_some hfound]
      rfl
  | cons next rest =>
      have hnext : continuesDie next = false := hrest next rfl
      have hfound : bareDie tag c (next :: rest) = some ⟨2, 'd' :: tag ++ [next]⟩ := by
        simp [bareDie, hc, hnext]
      have hcopied : bareDie tag next rest = none := by
        apply if_pos
        intro hfold
        have hcontinues : continuesDie next = true := by
          rw [continuesDie, hfold]
          rfl
        rw [hnext] at hcontinues
        cases hcontinues
      rw [replaceAll_cons_of_some hfound, replaceAll_cons_of_none hcopied]
      simp

/-! ## Words -/

variable {letters : List Char} {letter : Char}

/-- A word that starts with a `d` is told by the letter behind it. -/
theorem spares_word (letter : Char) (letters replacement : List Char) :
    Spares (word ('d' :: letter :: letters) replacement) (· != letter) := by
  intro c rest h
  apply if_neg
  intro hstarts
  obtain ⟨hd, hrest⟩ := List.cons_prefix_cons.mp (startsFolded_iff.mp hstarts)
  obtain ⟨next, hnext, hother⟩ := h hd.symm
  obtain ⟨behind, hbehind⟩ := hrest
  rw [← hbehind] at hnext
  obtain rfl : letter = next := Option.some_inj.mp hnext
  simp at hother

theorem replaceAll_word {replacement : List Char} (hne : piece ≠ [])
    (hpiece : piece.map foldCase = letters) (rest : List Char) :
    (replaceAll (word letters replacement) (piece ++ rest)).1 =
      replacement ++ (replaceAll (word letters replacement) rest).1 := by
  obtain ⟨c, tail, rfl⟩ := List.exists_cons_of_ne_nil hne
  have hstarts : startsFolded foldCase letters (c :: (tail ++ rest)) = true := by
    rw [startsFolded_iff, ← hpiece, ← List.cons_append, List.map_append]
    exact List.prefix_append _ _
  have hlength : letters.length - 1 = tail.length := by
    rw [← hpiece, List.length_map]
    rfl
  have hfound : word letters replacement c (tail ++ rest) = some ⟨letters.length, replacement⟩ :=
    if_pos hstarts
  rw [List.cons_append, replaceAll_cons_of_some hfound]
  show replacement ++ (replaceAll _ ((tail ++ rest).drop (letters.length - 1))).1 = _
  rw [hlength, List.drop_left]

end DiceNotation.Alias
