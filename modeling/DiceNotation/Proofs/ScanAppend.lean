import DiceNotation.Proofs.Scanning

/-!
# Scanning texts put together

No literal goes over a closing parenthesis or a blank, so a text in front of one is cut as it is cut
alone; only a run of blanks at its end grows together with the blanks behind it. A single character
that no lexeme continues is cut off whatever follows it.
-/

namespace DiceNotation.Lexeme

variable {kind : Kind} {c : Char} {w word rest text middle stop : List Char}
  {words words' : List (List Char)} {tokens tokens' : List Token}

theorem Lexes.append (h : Lexes text words tokens middle)
    (h' : Lexes middle words' tokens' stop) :
    Lexes text (words ++ words') (tokens ++ tokens') stop := by
  induction h with
  | stop text => exact h'
  | next hlongest hstands hrest ih =>
      rw [List.cons_append, List.append_assoc]
      exact .next hlongest hstands (ih h')

/-! ## The characters of lexemes -/

/-- The characters that dice literals are written with. -/
def isLiteralChar (c : Char) : Bool :=
  c.isAlphanum || c == '%' || c == '!'

theorem isLiteralChar_of_isDigit (h : c.isDigit = true) : isLiteralChar c = true := by
  simp [isLiteralChar, Char.isAlphanum, h]

theorem isLiteralChar_of_mem_positive (h : w ∈ Pattern.positive.matches') :
    ∀ c ∈ w, isLiteralChar c = true := by
  intro c hc
  exact isLiteralChar_of_isDigit (Pattern.isDigit_of_mem_positive h c hc)

theorem isLiteralChar_of_mem_sides (h : w ∈ Pattern.sides.matches') :
    ∀ c ∈ w, isLiteralChar c = true := by
  rcases Pattern.mem_sides.mp h with hpositive | hnamed
  · exact isLiteralChar_of_mem_positive hpositive
  · rcases Pattern.mem_namedSides.mp hnamed with rfl | ⟨kind, hkind, htag⟩
    · exact List.forall_mem_singleton.mpr rfl
    · intro c hc
      simp [isLiteralChar, Char.isAlphanum, DiceKind.isAlpha_of_tag hkind htag c hc]

theorem isLiteralChar_of_mem_selection (h : w ∈ Pattern.selection.matches') :
    ∀ c ∈ w, isLiteralChar c = true := by
  obtain ⟨c, direction, digits, rfl, hmode, hdirection, hdigits⟩ := Pattern.mem_selection.mp h
  have hletter : isLiteralChar c = true :=
    Literal.of_isSome_readMode? (p := isLiteralChar) (by decide) hmode
  have hfront : ∀ d ∈ direction, isLiteralChar d = true := by
    rcases hdirection with rfl | ⟨d, rfl, hd⟩
    · simp
    · have hletters : ['h', 'H', 'l', 'L'].all isLiteralChar = true := by decide
      exact List.forall_mem_singleton.mpr
        (List.all_eq_true.mp hletters d (Literal.isSome_readDirection?_iff.mp hd))
  exact List.forall_mem_append.mpr
    ⟨List.forall_mem_cons.mpr ⟨hletter, hfront⟩, isLiteralChar_of_mem_positive hdigits⟩

theorem isLiteralChar_of_matches_dice (h : Kind.Matches .dice w) :
    ∀ c ∈ w, isLiteralChar c = true := by
  obtain ⟨parts, hparts, rfl⟩ := DiceParts.mem_dice_iff.mp h
  have hcount : ∀ c ∈ parts.count, isLiteralChar c = true := by
    rcases hparts.count with hnil | hpositive
    · simp [hnil]
    · exact isLiteralChar_of_mem_positive hpositive
  have hdelimiter : isLiteralChar parts.delimiter = true :=
    of_isDelimiter (p := isLiteralChar) (by decide) hparts.delimiter
  have hbang : ∀ c ∈ parts.bang, isLiteralChar c = true := by
    rcases hparts.bang with hbang | hbang
    · simp [hbang]
    · rw [hbang]
      exact List.forall_mem_singleton.mpr rfl
  have hselection : ∀ c ∈ parts.selection, isLiteralChar c = true := by
    rcases hparts.selection with hnil | hmatched
    · simp [hnil]
    · exact isLiteralChar_of_mem_selection hmatched
  simp only [DiceParts.text, List.forall_mem_append, List.forall_mem_cons]
  exact ⟨⟨⟨hcount, hdelimiter, isLiteralChar_of_mem_sides hparts.sides⟩, hbang⟩, hselection⟩

/-- The characters of expressions. -/
def isNotationChar (c : Char) : Bool :=
  isLiteralChar c || isSeparator c || ['+', '-', '*', '/', '(', ')'].contains c

theorem isNotationChar_of_matches (h : kind.Matches w) : ∀ c ∈ w, isNotationChar c = true := by
  cases kind with
  | unknown => exact absurd h not_matches_unknown
  | dice =>
      intro c hc
      simp [isNotationChar, isLiteralChar_of_matches_dice h c hc]
  | blank =>
      intro c hc
      simp [isNotationChar, isSeparator_of_matches_blank h c hc]
  | number =>
      intro c hc
      simp [isNotationChar, isLiteralChar_of_isDigit ((Pattern.mem_number.mp h).2 c hc)]
  | operator op =>
      cases Pattern.mem_char.mp h
      cases op <;> exact List.forall_mem_singleton.mpr rfl
  | leftParen =>
      cases Pattern.mem_char.mp h
      exact List.forall_mem_singleton.mpr rfl
  | rightParen =>
      cases Pattern.mem_char.mp h
      exact List.forall_mem_singleton.mpr rfl

theorem Lexes.isNotationChar (h : Lexes text words tokens []) :
    ∀ c ∈ text, isNotationChar c = true := by
  generalize hstop : ([] : List Char) = stop at h
  induction h with
  | stop text =>
      subst hstop
      simp
  | next hlongest hstands hrest ih =>
      exact List.forall_mem_append.mpr ⟨isNotationChar_of_matches hlongest.matched, ih hstop⟩

theorem not_isSeparator_of_isLiteralChar (h : isLiteralChar c = true) : isSeparator c = false := by
  by_contra hseparator
  have hmem : c ∈ [' ', '\t', '\n', '\r', '\x0c'] := by
    simpa [isSeparator, or_assoc, imp_iff_not_or] using hseparator
  have hnone : [' ', '\t', '\n', '\r', '\x0c'].all (!isLiteralChar ·) = true := by decide
  simpa [h] using List.all_eq_true.mp hnone c hmem

/-- Only blanks contain separators. -/
theorem eq_blank_of_mem (h : kind.Matches w) (hc : c ∈ w) (hseparator : isSeparator c = true) :
    kind = .blank := by
  have hliteral : isLiteralChar c = false := by
    by_contra hliteral
    simp [not_isSeparator_of_isLiteralChar (by simpa using hliteral)] at hseparator
  cases kind with
  | blank => rfl
  | unknown => exact absurd h not_matches_unknown
  | dice => simp [isLiteralChar_of_matches_dice h c hc] at hliteral
  | number => simp [isLiteralChar_of_isDigit ((Pattern.mem_number.mp h).2 c hc)] at hliteral
  | operator op =>
      cases Pattern.mem_char.mp h
      cases op <;> (cases List.mem_singleton.mp hc; cases hseparator)
  | leftParen =>
      cases Pattern.mem_char.mp h
      cases List.mem_singleton.mp hc
      cases hseparator
  | rightParen =>
      cases Pattern.mem_char.mp h
      cases List.mem_singleton.mp hc
      cases hseparator

/-- The only lexeme with a closing parenthesis is the parenthesis alone. -/
theorem eq_of_matches_of_mem (h : kind.Matches w) (hmem : ')' ∈ w) : w = [')'] := by
  cases kind with
  | dice => exact absurd (isLiteralChar_of_matches_dice h ')' hmem) (by decide)
  | unknown => exact absurd h not_matches_unknown
  | blank => exact absurd (isSeparator_of_matches_blank h ')' hmem) (by decide)
  | number => exact absurd ((Pattern.mem_number.mp h).2 ')' hmem) (by decide)
  | operator op =>
      cases Pattern.mem_char.mp h
      cases op <;> simp [Operator.toChar] at hmem
  | leftParen =>
      cases Pattern.mem_char.mp h
      simp at hmem
  | rightParen => exact Pattern.mem_char.mp h

/-! ## In front of a character that ends a literal -/

theorem starts_of_not_mem (h : w <+: text ++ c :: rest) (hc : c ∉ w) : w <+: text := by
  rcases List.prefix_or_prefix_of_prefix h (List.prefix_append text (c :: rest)) with hle | hle
  · exact hle
  · obtain ⟨behind, rfl⟩ := hle
    cases behind with
    | nil => simp
    | cons d tail =>
        have hstarts := (List.prefix_append_right_inj text).mp h
        obtain ⟨rfl, -⟩ := List.cons_prefix_cons.mp hstarts
        exact absurd (by simp) hc

/-- A longest match stays the longest in front of a character if no match that takes this character
is longer. -/
theorem IsLongest.before (h : IsLongest text kind word)
    (hc : ∀ other w, w <+: text ++ c :: rest → Kind.Matches other w → c ∈ w →
      w.length ≤ word.length) : IsLongest (text ++ c :: rest) kind word where
  ne_nil := h.ne_nil
  starts := h.starts.trans (List.prefix_append text _)
  matched := h.matched
  longest := by
    intro other w hw hmatched
    by_cases hmem : c ∈ w
    · exact hc other w hw hmatched hmem
    · exact h.longest other w (starts_of_not_mem hw hmem) hmatched

theorem breaksOff_before_iff (hc : isLiteralChar c = false) (rest behind : List Char) :
    BreaksOff word (rest ++ c :: behind) ↔ BreaksOff word rest := by
  have hmode : c ∉ ['k', 'K', 'd', 'D'] := by
    intro hmem
    have hletters : ['k', 'K', 'd', 'D'].all isLiteralChar = true := by decide
    have hliteral := List.all_eq_true.mp hletters c hmem
    simp [hc] at hliteral
  have hhead : (∃ d ∈ ['k', 'K', 'd', 'D'], (rest ++ c :: behind).head? = some d) ↔
      ∃ d ∈ ['k', 'K', 'd', 'D'], rest.head? = some d := by
    cases rest with
    | nil => simpa using hmode
    | cons d rest => rfl
  have hselection : (∃ w, w <+: rest ++ c :: behind ∧ w ∈ Pattern.selection.matches') ↔
      ∃ w, w <+: rest ∧ w ∈ Pattern.selection.matches' := by
    constructor
    · rintro ⟨w, hw, hmatched⟩
      have hmem : c ∉ w := by
        intro hmem
        have hliteral := isLiteralChar_of_mem_selection hmatched c hmem
        simp [hc] at hliteral
      exact ⟨w, starts_of_not_mem hw hmem, hmatched⟩
    · rintro ⟨w, hw, hmatched⟩
      exact ⟨w, hw.trans (List.prefix_append rest _), hmatched⟩
  simp only [BreaksOff, hhead, hselection]

theorem StandsFor.before {token? : Option Token} (h : StandsFor kind word rest token?)
    (hc : isLiteralChar c = false) (behind : List Char) :
    StandsFor kind word (rest ++ c :: behind) token? := by
  cases h with
  | blank => exact .blank _ _
  | number => exact .number _ _
  | operator op => exact .operator op _ _
  | leftParen => exact .leftParen _ _
  | rightParen => exact .rightParen _ _
  | dice hwhole hread =>
      exact .dice (fun hbreaks => hwhole ((breaksOff_before_iff hc rest behind).mp hbreaks)) hread
  | brokenDice hbroken => exact .brokenDice ((breaksOff_before_iff hc rest behind).mpr hbroken)

/-! ## In front of a closing parenthesis -/

/-- A match that takes the parenthesis is that one character, so it is not longer. -/
theorem IsLongest.closed (h : IsLongest text kind word) (rest : List Char) :
    IsLongest (text ++ ')' :: rest) kind word := by
  apply h.before
  intro other w hw hmatched hmem
  rw [eq_of_matches_of_mem hmatched hmem]
  exact List.length_pos_iff.mpr h.ne_nil

/-- A text in front of a closing parenthesis is cut as it is cut alone. -/
theorem Lexes.closed (h : Lexes text words tokens []) (rest : List Char) :
    Lexes (text ++ ')' :: rest) words tokens (')' :: rest) := by
  generalize hstop : ([] : List Char) = stop at h
  induction h with
  | stop text =>
      subst hstop
      exact .stop _
  | @next kind word behind stop token? words tokens hlongest hstands hrest ih =>
      have hclosed := hlongest.closed rest
      rw [List.append_assoc] at hclosed ⊢
      exact .next hclosed (hstands.before (by decide) rest) (ih hstop)

/-! ## Blanks between texts -/

theorem isLongest_blank (hc : isSeparator c = true) (rest : List Char) :
    IsLongest (c :: rest) .blank (c :: rest.takeWhile isSeparator) where
  ne_nil := List.cons_ne_nil c _
  starts := (List.prefix_cons_inj c).mpr (List.takeWhile_prefix _)
  matched := mem_blanks_iff.mpr ⟨c, _, rfl, hc, List.all_eq_true.mp List.all_takeWhile⟩
  longest := by
    intro other w hw hmatched
    cases w with
    | nil => exact Nat.zero_le _
    | cons d tail =>
        obtain ⟨rfl, htail⟩ := List.cons_prefix_cons.mp hw
        obtain rfl := eq_blank_of_mem hmatched List.mem_cons_self hc
        have hall := isSeparator_of_matches_blank hmatched
        exact Nat.succ_le_succ
          (length_le_takeWhile (fun e he => hall e (List.mem_cons_of_mem _ he)) htail)

theorem not_isSeparator_of_unmatched (h : Unmatched (c :: rest)) : isSeparator c = false := by
  by_contra hseparator
  have hlongest := isLongest_blank (by simpa using hseparator) rest
  exact hlongest.ne_nil (h .blank _ hlongest.starts hlongest.matched)

theorem StandsFor.before_separator {token? : Option Token} (h : StandsFor kind word rest token?)
    (hc : isSeparator c = true) (behind : List Char) :
    StandsFor kind word (rest ++ c :: behind) token? := by
  apply h.before
  by_contra hliteral
  rw [not_isSeparator_of_isLiteralChar (by simpa using hliteral)] at hc
  cases hc

/-- A longest match stays the longest in front of a blank, unless it is the blanks at the end of the
text. -/
theorem IsLongest.before_separator (h : IsLongest text kind word) (hc : isSeparator c = true)
    (rest : List Char) (hend : kind = .blank → word ≠ text) :
    IsLongest (text ++ c :: rest) kind word := by
  apply h.before
  intro other w hw hmatched hmem
  obtain rfl := eq_blank_of_mem hmatched hmem hc
  rcases List.prefix_or_prefix_of_prefix hw (List.prefix_append text (c :: rest)) with hle | hle
  · exact h.longest .blank w hle hmatched
  · -- the match goes over the text, which then consists of blanks and is the longest match itself
    obtain ⟨d, tail, rfl⟩ :=
      List.exists_cons_of_ne_nil fun hnil : text = [] => h.not_stop (.inl hnil)
    have hall : ∀ e ∈ d :: tail, isSeparator e = true :=
      fun e he => isSeparator_of_matches_blank hmatched e (hle.subset he)
    obtain ⟨hd, htail⟩ := List.forall_mem_cons.mp hall
    have hlongest := isLongest_blank hd tail
    rw [List.takeWhile_eq_self_iff.mpr htail] at hlongest
    obtain ⟨hkind, hword⟩ := h.unique hlongest
    exact absurd hword (hend hkind)

/-- Blanks at the start of a text can be taken off. -/
theorem Lexes.dropWhile (h : Lexes text words tokens stop) (hstop : stop = [] ∨ Unmatched stop) :
    ∃ words', Lexes (text.dropWhile isSeparator) words' tokens stop := by
  induction h with
  | stop text =>
      refine ⟨[], ?_⟩
      cases text with
      | nil => exact .stop []
      | cons c rest =>
          have hc := not_isSeparator_of_unmatched (hstop.resolve_left (List.cons_ne_nil c rest))
          rw [List.dropWhile_cons_of_neg (by simp [hc])]
          exact .stop _
  | @next kind word rest stop token? words tokens hlongest hstands hrest ih =>
      by_cases hkind : kind = .blank
      · subst hkind
        cases hstands
        rw [List.dropWhile_append_of_pos (isSeparator_of_matches_blank hlongest.matched)]
        exact ih hstop
      · have hword : (word ++ rest).dropWhile isSeparator = word ++ rest := by
          obtain ⟨c, tail, rfl⟩ := List.exists_cons_of_ne_nil hlongest.ne_nil
          have hc : isSeparator c ≠ true := fun hseparator =>
            hkind (eq_blank_of_mem hlongest.matched List.mem_cons_self hseparator)
          exact List.dropWhile_cons_of_neg hc
        rw [hword]
        exact ⟨_, .next hlongest hstands hrest⟩

/-- Blanks can be put in front of a text. They become one lexeme with the blanks that it starts
with. -/
theorem Lexes.blanks (h : Lexes text words tokens stop) (hstop : stop = [] ∨ Unmatched stop)
    (hw : ∀ c ∈ w, isSeparator c = true) : ∃ words', Lexes (w ++ text) words' tokens stop := by
  cases w with
  | nil => exact ⟨words, h⟩
  | cons c tail =>
      obtain ⟨hc, htail⟩ := List.forall_mem_cons.mp hw
      obtain ⟨words', hrest⟩ := h.dropWhile hstop
      have hlongest := isLongest_blank hc (tail ++ text)
      rw [List.takeWhile_append_of_pos htail] at hlongest
      have htext : c :: tail ++ text =
          (c :: (tail ++ text.takeWhile isSeparator)) ++ text.dropWhile isSeparator := by
        simp
      rw [← List.cons_append, htext] at hlongest
      rw [htext]
      exact ⟨_, .next hlongest (.blank _ _) hrest⟩

/-- A text in front of a blank is cut into the tokens that it is cut into alone. -/
theorem Lexes.separated (h : Lexes text words tokens []) (hc : isSeparator c = true)
    (h' : Lexes (c :: rest) words' tokens' stop) (hstop : stop = [] ∨ Unmatched stop) :
    ∃ words'', Lexes (text ++ c :: rest) words'' (tokens ++ tokens') stop := by
  generalize hend : ([] : List Char) = endOfText at h
  induction h with
  | stop text =>
      subst hend
      exact ⟨words', h'⟩
  | @next kind word behind endOfText token? words tokens hlongest hstands hrest ih =>
      obtain ⟨words'', hbehind⟩ := ih hend
      rw [List.append_assoc, List.append_assoc]
      by_cases hkind : kind = .blank
      · subst hkind
        cases hstands
        exact hbehind.blanks hstop (isSeparator_of_matches_blank hlongest.matched)
      · have hbefore := hlongest.before_separator hc rest fun hblank => absurd hblank hkind
        rw [List.append_assoc] at hbefore
        exact ⟨_, .next hbefore (hstands.before_separator hc rest) hbehind⟩

/-! ## Single characters -/

/-- A character that starts no dice literal and is a lexeme by itself is cut off. -/
theorem Lexes.single {token? : Option Token} (hdice : DiceParts.first? (c :: rest) = none)
    (hsimple : simple c rest = ⟨kind, [c]⟩) (hkind : kind ≠ .unknown)
    (hstands : StandsFor kind [c] rest token?) (h : Lexes rest words tokens stop) :
    Lexes (c :: rest) ([c] :: words) (token?.toList ++ tokens) stop := by
  rcases isLongest_simple hdice with hlongest | ⟨hunknown, -⟩
  · rw [hsimple] at hlongest
    exact .next hlongest hstands h
  · rw [hsimple] at hunknown
    cases hunknown
    exact absurd rfl hkind

theorem Lexes.leftParen (h : Lexes rest words tokens stop) :
    Lexes ('(' :: rest) (['('] :: words) (.leftParen :: tokens) stop :=
  .single rfl rfl (by decide) (.leftParen _ _) h

theorem Lexes.rightParen (h : Lexes rest words tokens stop) :
    Lexes (')' :: rest) ([')'] :: words) (.rightParen :: tokens) stop :=
  .single rfl rfl (by decide) (.rightParen _ _) h

theorem Lexes.operator (op : Operator) (h : Lexes rest words tokens stop) :
    Lexes (op.toChar :: rest) ([op.toChar] :: words) (.operator op :: tokens) stop := by
  have hdice : DiceParts.first? (op.toChar :: rest) = none := by cases op <;> rfl
  have hsimple : simple op.toChar rest = ⟨.operator op, [op.toChar]⟩ := by cases op <;> rfl
  exact .single hdice hsimple (by simp) (.operator op _ _) h

/-- One space. -/
theorem Lexes.space (hrest : ∀ c ∈ rest.head?, isSeparator c = false)
    (h : Lexes rest words tokens stop) : Lexes (' ' :: rest) ([' '] :: words) tokens stop := by
  have hrun : rest.takeWhile isSeparator = [] := by
    cases rest with
    | nil => rfl
    | cons c tail => simp [hrest c rfl]
  have hsimple : simple ' ' rest = ⟨.blank, [' ']⟩ := by
    rw [simple, if_pos (by decide), hrun]
  exact .single rfl hsimple (by decide) (.blank _ _) h

end DiceNotation.Lexeme
