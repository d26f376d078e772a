import DiceNotation.GameSystem.Basic
import DiceNotation.Proofs.Replacement

/-!
# The words of faction dice

The words of attack and defense dice do not overlap, and no long form makes a word with what stands
around it. So it makes no difference that the second word is looked for in a text where the first one
is replaced already: the characters of a word are told from the text that it stands in.
-/

namespace DiceNotation

namespace Alias

variable {text : List Char} {c : Char}

/-! ## Words in any case -/

/-- The ways to write a letter: in both cases, and a `k` as the Kelvin sign. -/
def writings (letter : Char) : List Char :=
  if letter = 'k' then ['k', 'K', 'K'] else [letter, letter.toUpper]

/-- The text starts with the word in any case. -/
def startsWith : List Char → List Char → Bool
  | [], _ => true
  | _ :: _, [] => false
  | letter :: word, c :: text => (writings letter).contains c && startsWith word text

theorem mem_writings_iff {letter : Char} (hlower : letter.isLower = true) (hs : letter ≠ 's') :
    c ∈ writings letter ↔ foldCase c = letter := by
  unfold writings
  split
  next hk =>
    rw [hk, foldCase]
    split
    next hc =>
      rw [hc]
      decide
    next =>
      split
      next hc =>
        rw [hc]
        decide
      next hc =>
        rw [toLower_eq_iff (by decide)]
        simp [hc]
  next hk =>
    have hcases : c ∈ [letter, letter.toUpper] ↔ c.toLower = letter := by
      simp [toLower_eq_iff hlower]
    rw [hcases]
    refine ⟨fun h => ?_, toLower_of_foldCase hs hk⟩
    have halpha : c.isAlpha = true := by
      rw [← Char.isAlpha_toLower_eq_isAlpha, h, Char.isAlpha, hlower, Bool.or_true]
    rw [foldCase_of_isAlpha halpha, h]

theorem startsWith_iff {word : List Char}
    (hword : word.all (fun letter => letter.isLower && letter != 's') = true) :
    startsWith word text = true ↔ word <+: text.map foldCase := by
  induction word generalizing text with
  | nil => simp [startsWith]
  | cons letter word ih =>
      simp only [List.all_cons, Bool.and_eq_true, bne_iff_ne] at hword
      obtain ⟨⟨hlower, hs⟩, hword⟩ := hword
      cases text with
      | nil => simp [startsWith]
      | cons c text =>
          rw [startsWith, Bool.and_eq_true, List.contains_iff_mem, mem_writings_iff hlower hs,
            ih hword, List.map_cons, List.cons_prefix_cons, eq_comm]

/-! ## Texts that words are inserted in -/

/-- The function copies a text but for what it inserts, which begins with `dM`. -/
def Inserts (f : List Char → List Char) : Prop :=
  f [] = [] ∧ ∀ c rest, f (c :: rest) = c :: f rest ∨ ∃ more, f (c :: rest) = 'd' :: 'M' :: more

/-- A word that does not begin like the insertions is there only if it was. -/
theorem Inserts.starts {f : List Char → List Char} (hf : Inserts f) {word : List Char}
    (hword : Guarded (· != 'm') word) (h : word <+: (f text).map foldCase) :
    word <+: text.map foldCase := by
  induction word generalizing text with
  | nil => exact List.nil_prefix
  | cons letter word ih =>
      obtain ⟨hletter, hword⟩ := hword
      cases text with
      | nil =>
          rw [hf.1] at h
          exact h
      | cons c rest =>
          rcases hf.2 c rest with hcopied | ⟨more, hinserted⟩
          · rw [hcopied] at h
            obtain ⟨hc, hrest⟩ := List.cons_prefix_cons.mp h
            exact List.cons_prefix_cons.mpr ⟨hc, ih hword hrest⟩
          · rw [hinserted] at h
            obtain ⟨hd, hrest⟩ := List.cons_prefix_cons.mp h
            obtain ⟨next, hnext, hother⟩ := hletter (hd.trans (by decide))
            cases word with
            | nil => cases hnext
            | cons first word =>
                obtain rfl : first = next := Option.some_inj.mp hnext
                have hm : first = foldCase 'M' := (List.cons_prefix_cons.mp hrest).1
                rw [hm] at hother
                exact absurd hother (by decide)

theorem inserts_word {letters more : List Char} (replacement : List Char)
    (hreplacement : replacement = 'd' :: 'M' :: more) :
    Inserts fun text => (replaceAll (word letters replacement) text).1 := by
  refine ⟨replaceAll_nil _, fun c rest => ?_⟩
  cases hfound : word letters replacement c rest with
  | none => exact .inl (replaceAll_cons_of_none hfound)
  | some found =>
      obtain ⟨-, hmatch⟩ := Option.ite_none_right_eq_some.mp hfound
      obtain rfl := Option.some_inj.mp hmatch
      subst hreplacement
      exact .inr ⟨_, replaceAll_cons_of_some hfound⟩

end Alias

/-! ## Faction dice -/

namespace GameSystem

open Alias

variable {text rest piece full word : List Char} {c : Char}

/-- The long form of the word of faction dice that a text starts with. -/
def factionWord? (text : List Char) : Option (List Char) :=
  if startsWith ['d', 'a', 't', 'k'] text then some ['d', 'M', 'c', 'p', 'A', 't', 'k']
  else if startsWith ['d', 'd', 'e', 'f'] text then some ['d', 'M', 'c', 'p', 'D', 'e', 'f']
  else none

/-- What is written for the character at a place of the text: the long form of a word that begins
there, nothing inside a word, and else the character. -/
def factionImage (text : List Char) (i : Nat) : List Char :=
  match factionWord? (text.drop i) with
  | some full => full
  | none =>
    if (List.range i).any fun j => i < j + 4 && (factionWord? (text.drop j)).isSome then []
    else text[i]?.toList

theorem factionWord?_cases (text : List Char) :
    ['d', 'a', 't', 'k'] <+: text.map foldCase ∧
        factionWord? text = some ['d', 'M', 'c', 'p', 'A', 't', 'k'] ∨
      ['d', 'd', 'e', 'f'] <+: text.map foldCase ∧
        factionWord? text = some ['d', 'M', 'c', 'p', 'D', 'e', 'f'] ∨
      ¬ ['d', 'a', 't', 'k'] <+: text.map foldCase ∧ ¬ ['d', 'd', 'e', 'f'] <+: text.map foldCase ∧
        factionWord? text = none := by
  have hattack : startsWith ['d', 'a', 't', 'k'] text = true ↔ _ := startsWith_iff (by decide)
  have hdefense : startsWith ['d', 'd', 'e', 'f'] text = true ↔ _ := startsWith_iff (by decide)
  rw [← hattack, ← hdefense, factionWord?]
  cases startsWith ['d', 'a', 't', 'k'] text with
  | true => simp
  | false =>
      cases startsWith ['d', 'd', 'e', 'f'] text with
      | true => simp
      | false => simp

theorem factionWord?_eq_none_iff : factionWord? text = none ↔
    ¬ ['d', 'a', 't', 'k'] <+: text.map foldCase ∧
      ¬ ['d', 'd', 'e', 'f'] <+: text.map foldCase := by
  rcases factionWord?_cases text with ⟨hword, hfull⟩ | ⟨hword, hfull⟩ | ⟨ha, hd, hnone⟩
  · simp [hfull, hword]
  · simp [hfull, hword]
  · exact iff_of_true hnone ⟨ha, hd⟩

/-- The piece is a word of faction dice up to case, with this long form. -/
def IsWord (piece full : List Char) : Prop :=
  piece.map foldCase = ['d', 'a', 't', 'k'] ∧ full = ['d', 'M', 'c', 'p', 'A', 't', 'k'] ∨
    piece.map foldCase = ['d', 'd', 'e', 'f'] ∧ full = ['d', 'M', 'c', 'p', 'D', 'e', 'f']

theorem exists_isWord (h : factionWord? text = some full) :
    ∃ piece rest, text = piece ++ rest ∧ IsWord piece full := by
  have hsplit : ∀ {word : List Char}, word <+: text.map foldCase →
      ∃ piece rest, text = piece ++ rest ∧ piece.map foldCase = word := by
    rintro word ⟨behind, hbehind⟩
    obtain ⟨piece, rest, rfl, hpiece, -⟩ := List.map_eq_append_iff.mp hbehind.symm
    exact ⟨piece, rest, rfl, hpiece⟩
  rcases factionWord?_cases text with ⟨hword, hfull⟩ | ⟨hword, hfull⟩ | ⟨-, -, hnone⟩
  · obtain ⟨piece, rest, htext, hpiece⟩ := hsplit hword
    exact ⟨piece, rest, htext, .inl ⟨hpiece, Option.some_inj.mp (h.symm.trans hfull)⟩⟩
  · obtain ⟨piece, rest, htext, hpiece⟩ := hsplit hword
    exact ⟨piece, rest, htext, .inr ⟨hpiece, Option.some_inj.mp (h.symm.trans hfull)⟩⟩
  · cases h.symm.trans hnone

theorem IsWord.length_eq (h : IsWord piece full) : piece.length = 4 := by
  have hlength : (piece.map foldCase).length = piece.length := List.length_map foldCase
  rcases h with ⟨hpiece, -⟩ | ⟨hpiece, -⟩
  · rw [← hlength, hpiece]
    rfl
  · rw [← hlength, hpiece]
    rfl

/-- Words do not overlap: behind its first letter, no word begins inside a word. -/
theorem IsWord.factionWord?_drop (h : IsWord piece full) {k : Nat} (hpos : 0 < k) (hk : k < 4) :
    factionWord? ((piece ++ rest).drop k) = none := by
  -- none of the last three letters of a word begins a word together with the letter behind it
  rcases h with ⟨hpiece, -⟩ | ⟨hpiece, -⟩
  all_goals
    refine factionWord?_eq_none_iff.mpr ⟨?_, ?_⟩
    all_goals
      rw [List.map_drop, List.map_append, hpiece]
      interval_cases k
      all_goals simp [List.cons_prefix_cons]

theorem IsWord.factionWord?_append (h : IsWord piece full) (rest : List Char) :
    factionWord? (piece ++ rest) = some full := by
  rcases h with ⟨hpiece, rfl⟩ | ⟨hpiece, rfl⟩
  · rcases factionWord?_cases (piece ++ rest) with ⟨-, hfull⟩ | ⟨hword, -⟩ | ⟨hword, -⟩
    · exact hfull
    · rw [List.map_append, hpiece] at hword
      simp [List.cons_prefix_cons] at hword
    · rw [List.map_append, hpiece] at hword
      exact absurd (List.prefix_append _ _) hword
  · rcases factionWord?_cases (piece ++ rest) with ⟨hword, -⟩ | ⟨-, hfull⟩ | ⟨-, hword, -⟩
    · rw [List.map_append, hpiece] at hword
      simp [List.cons_prefix_cons] at hword
    · exact hfull
    · rw [List.map_append, hpiece] at hword
      exact absurd (List.prefix_append _ _) hword

/-- In a long form no `d` stands before the second letter of a word. -/
theorem IsWord.guarded (h : IsWord piece full) :
    Guarded (· != 'a') (full.map foldCase) ∧ Guarded (· != 'd') (full.map foldCase) := by
  rcases h with ⟨-, rfl⟩ | ⟨-, rfl⟩
  · simp [foldCase, Guarded]
  · simp [foldCase, Guarded]

/-- A text of faction dice is read from left to right, a character or a word at a time. -/
@[elab_as_elim]
theorem faction_induction {motive : List Char → Prop} (text : List Char) (nil : motive [])
    (copied : ∀ c rest, factionWord? (c :: rest) = none → motive rest → motive (c :: rest))
    (replaced : ∀ piece full rest, IsWord piece full → motive rest → motive (piece ++ rest)) :
    motive text := by
  induction h : text.length using Nat.strongRecOn generalizing text with
  | ind n ih =>
      subst h
      cases text with
      | nil => exact nil
      | cons c rest =>
          cases hword : factionWord? (c :: rest) with
          | none => exact copied c rest hword (ih _ (by simp) rest rfl)
          | some full =>
              obtain ⟨piece, behind, htext, hpiece⟩ := exists_isWord hword
              rw [htext]
              refine replaced piece full behind hpiece (ih _ ?_ behind rfl)
              rw [htext, List.length_append, hpiece.length_eq]
              omega

/-! ## One word after the other -/

theorem expandChars_faction (text : List Char) :
    (faction.expandChars text).1 =
      (replaceAll (Alias.word ['d', 'd', 'e', 'f'] ('d' :: DiceKind.factionDefense.tag))
        (replaceAll (Alias.word ['d', 'a', 't', 'k'] ('d' :: DiceKind.factionAttack.tag))
          text).1).1 :=
  rfl

theorem expandChars_nil (system : GameSystem) : (system.expandChars []).1 = [] := by
  cases system with
  | standard => rfl
  | duality => exact replaceAll_nil _
  | fudge => exact replaceAll_nil _
  | faction => rw [expandChars_faction, replaceAll_nil, replaceAll_nil]

/-- The search for attack dice. -/
abbrev attackDie : Alias.Pattern :=
  Alias.word ['d', 'a', 't', 'k'] ('d' :: DiceKind.factionAttack.tag)

/-- The search for defense dice. -/
abbrev defenseDie : Alias.Pattern :=
  Alias.word ['d', 'd', 'e', 'f'] ('d' :: DiceKind.factionDefense.tag)

theorem attackDie_eq_none_iff :
    attackDie c rest = none ↔ ¬ ['d', 'a', 't', 'k'] <+: (c :: rest).map foldCase := by
  rw [← startsFolded_iff, attackDie, Alias.word]
  simp

theorem defenseDie_eq_none_iff :
    defenseDie c rest = none ↔ ¬ ['d', 'd', 'e', 'f'] <+: (c :: rest).map foldCase := by
  rw [← startsFolded_iff, defenseDie, Alias.word]
  simp

theorem expandChars_of_isWord (h : IsWord piece full) (rest : List Char) :
    (faction.expandChars (piece ++ rest)).1 = full ++ (faction.expandChars rest).1 := by
  have hne : piece ≠ [] := by
    rintro rfl
    cases h.length_eq
  rw [expandChars_faction, expandChars_faction]
  rcases h with ⟨hpiece, rfl⟩ | ⟨hpiece, rfl⟩
  · -- the long form of an attack word is none of a defense word
    have hinert : Inert defenseDie ('d' :: DiceKind.factionAttack.tag) :=
      (spares_word 'd' _ _).inert (by simp [DiceKind.tag, foldCase, Guarded])
    rw [replaceAll_word hne hpiece, hinert]
    rfl
  · have hinert : Inert attackDie piece :=
      (spares_word 'a' _ _).inert (by rw [hpiece]; simp [Guarded])
    rw [hinert, replaceAll_word hne hpiece]
    rfl

theorem inserts_attackDie : Inserts fun text => (replaceAll attackDie text).1 :=
  inserts_word _ rfl

/-- Replaced attack words do not make a defense word. -/
theorem expandChars_of_none (h : factionWord? (c :: rest) = none) :
    (faction.expandChars (c :: rest)).1 = c :: (faction.expandChars rest).1 := by
  obtain ⟨hattack, hdefense⟩ := factionWord?_eq_none_iff.mp h
  have hcopied := replaceAll_cons_of_none (attackDie_eq_none_iff.mpr hattack)
  have hnone : defenseDie c (replaceAll attackDie rest).1 = none := by
    rw [defenseDie_eq_none_iff, ← hcopied]
    exact fun hword => hdefense (inserts_attackDie.starts (by simp [Guarded]) hword)
  rw [expandChars_faction, expandChars_faction, hcopied, replaceAll_cons_of_none hnone]

theorem inserts_faction : Inserts fun text => (faction.expandChars text).1 := by
  refine ⟨expandChars_nil faction, fun c rest => ?_⟩
  cases hword : factionWord? (c :: rest) with
  | none => exact .inl (expandChars_of_none hword)
  | some full =>
      obtain ⟨piece, behind, htext, hpiece⟩ := exists_isWord hword
      right
      simp only [htext, expandChars_of_isWord hpiece]
      rcases hpiece with ⟨-, rfl⟩ | ⟨-, rfl⟩
      · exact ⟨_, rfl⟩
      · exact ⟨_, rfl⟩

/-- No word of faction dice is left. -/
theorem unmatched_faction (text : List Char) :
    Unmatched attackDie (faction.expandChars text).1 ∧
      Unmatched defenseDie (faction.expandChars text).1 := by
  induction text using faction_induction with
  | nil =>
      rw [expandChars_nil]
      exact ⟨trivial, trivial⟩
  | copied c rest hnone ih =>
      have hstarts : ∀ {word}, Guarded (· != 'm') word →
          word <+: (c :: (faction.expandChars rest).1).map foldCase →
          word <+: (c :: rest).map foldCase := by
        intro word hword
        rw [← expandChars_of_none hnone]
        exact inserts_faction.starts hword
      obtain ⟨hattack, hdefense⟩ := factionWord?_eq_none_iff.mp hnone
      rw [expandChars_of_none hnone]
      refine ⟨⟨attackDie_eq_none_iff.mpr ?_, ih.1⟩, ⟨defenseDie_eq_none_iff.mpr ?_, ih.2⟩⟩
      · exact fun hword => hattack (hstarts (by simp [Guarded]) hword)
      · exact fun hword => hdefense (hstarts (by simp [Guarded]) hword)
  | replaced piece full rest hpiece ih =>
      obtain ⟨hattack, hdefense⟩ := hpiece.guarded
      rw [expandChars_of_isWord hpiece]
      exact ⟨(spares_word 'a' _ _).unmatched_append hattack ih.1,
        (spares_word 'd' _ _).unmatched_append hdefense ih.2⟩

/-! ## Faction dice, place by place -/

theorem factionImage_of_isWord {before : List Char} (h : IsWord piece full) :
    factionImage (before ++ (piece ++ rest)) before.length = full := by
  rw [factionImage, List.drop_left, h.factionWord?_append]

theorem factionImage_inside {before : List Char} (h : IsWord piece full) {k : Nat} (hpos : 0 < k)
    (hk : k < 4) : factionImage (before ++ (piece ++ rest)) (before.length + k) = [] := by
  have hcovered : ((List.range (before.length + k)).any fun j => before.length + k < j + 4 &&
      (factionWord? ((before ++ (piece ++ rest)).drop j)).isSome) = true := by
    rw [List.any_eq_true]
    refine ⟨before.length, List.mem_range.mpr (by omega), ?_⟩
    rw [List.drop_left, h.factionWord?_append]
    simpa using hk
  rw [factionImage, List.drop_length_add_append, h.factionWord?_drop hpos hk, if_pos hcovered]

/-- No word that begins in the text in front reaches over its end. -/
def Closed (before text : List Char) : Prop :=
  ∀ j < before.length, factionWord? ((before ++ text).drop j) ≠ none → j + 4 ≤ before.length

variable {before : List Char}

theorem Closed.concat (h : Closed before (c :: rest)) (hnone : factionWord? (c :: rest) = none) :
    Closed (before ++ [c]) rest := by
  intro j hj hword
  rw [List.append_assoc, List.singleton_append] at hword
  rw [List.length_append, List.length_singleton] at hj ⊢
  rcases Nat.lt_succ_iff_lt_or_eq.mp hj with hlt | rfl
  · exact Nat.le_succ_of_le (h j hlt hword)
  · rw [List.drop_left] at hword
    exact absurd hnone hword

theorem Closed.append (h : Closed before (piece ++ rest)) (hpiece : IsWord piece full) :
    Closed (before ++ piece) rest := by
  intro j hj hword
  rw [List.append_assoc] at hword
  rw [List.length_append, hpiece.length_eq] at hj ⊢
  by_cases hlt : j < before.length
  · exact Nat.le_add_right_of_le (h j hlt hword)
  · obtain ⟨k, rfl⟩ := Nat.exists_eq_add_of_le (Nat.le_of_not_lt hlt)
    rw [List.drop_length_add_append] at hword
    have hfirst : k = 0 := by
      by_contra hk
      exact hword (hpiece.factionWord?_drop (Nat.pos_of_ne_zero hk) (by omega))
    omega

theorem Closed.factionImage_of_none (h : Closed before (c :: rest))
    (hnone : factionWord? (c :: rest) = none) :
    factionImage (before ++ c :: rest) before.length = [c] := by
  have hcovered : ((List.range before.length).any fun j => before.length < j + 4 &&
      (factionWord? ((before ++ c :: rest).drop j)).isSome) = false := by
    rw [List.any_eq_false]
    intro j hj hboth
    obtain ⟨hover, hsome⟩ := (Bool.and_eq_true _ _).mp hboth
    have hle := h j (List.mem_range.mp hj) (Option.isSome_iff_ne_none.mp hsome)
    have hlt : before.length < j + 4 := by simpa using hover
    omega
  rw [factionImage, List.drop_left, hnone, hcovered]
  simp

/-- Behind a text that no word reaches out of, the characters are written as if nothing stood
there. -/
theorem Closed.flatMap_factionImage (h : Closed before text) :
    ((List.range text.length).flatMap fun i =>
      factionImage (before ++ text) (before.length + i)) = (faction.expandChars text).1 := by
  induction text using faction_induction generalizing before with
  | nil =>
      rw [expandChars_nil]
      rfl
  | copied c rest hnone ih =>
      have hrest := ih (h.concat hnone)
      rw [List.append_assoc, List.singleton_append, List.length_append,
        List.length_singleton] at hrest
      rw [List.length_cons, List.range_succ_eq_map, List.flatMap_cons, List.flatMap_map,
        expandChars_of_none hnone, ← hrest]
      simp only [Nat.add_zero, h.factionImage_of_none hnone, List.singleton_append,
        Nat.succ_eq_add_one, Nat.add_assoc, Nat.add_comm 1]
  | replaced piece full rest hpiece ih =>
      have hrest := ih (h.append hpiece)
      rw [List.append_assoc, List.length_append, hpiece.length_eq] at hrest
      have hword : ((List.range 4).flatMap fun i =>
          factionImage (before ++ (piece ++ rest)) (before.length + i)) = full := by
        have hinside : ∀ k, 0 < k → k < 4 →
            factionImage (before ++ (piece ++ rest)) (before.length + k) = [] :=
          fun k => factionImage_inside hpiece
        have hfour : List.range 4 = [0, 1, 2, 3] := rfl
        rw [hfour]
        simp [factionImage_of_isWord hpiece, hinside]
      rw [List.length_append, hpiece.length_eq, List.range_add, List.flatMap_append, hword,
        List.flatMap_map, expandChars_of_isWord hpiece, ← hrest]
      simp only [Nat.add_assoc]

end GameSystem

end DiceNotation
