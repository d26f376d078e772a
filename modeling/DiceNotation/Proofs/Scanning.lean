import DiceNotation.Proofs.LongestMatch
import DiceNotation.Token.Scan

/-!
# Scanning

Scanning is the cutting of a text by longest match. It succeeds if the text is cut to its end, and
otherwise fails at the first place where no pattern matches.
-/

namespace DiceNotation

namespace Lexeme

variable {kind kind' : Kind} {c : Char} {w word rest text stop stop' : List Char}
  {words words' : List (List Char)} {tokens tokens' : List Token}

/-! ## The token of a lexeme -/

theorem constant_of_mem_number (hw : w ∈ Pattern.number.matches') :
    constant w = Int64.ofNat (min (Nat.ofDigitChars 10 w 0) 9223372036854775807) := by
  simp only [constant, Numeral.read?_eq_some_iff.mpr ⟨hw, rfl⟩, largestConstant]

/-- A dice literal has no value as a number. -/
theorem constant_of_matches_dice (hw : Kind.Matches .dice w) :
    constant w = 9223372036854775807 := by
  have hread : Numeral.read? w = none := by
    cases h : Numeral.read? w with
    | none => rfl
    | some n =>
        have hnumber : Kind.Matches .number w := (Numeral.read?_eq_some_iff.mp h).1
        obtain ⟨d, hd, hdelimiter⟩ := exists_delimiter_of_matches_dice hw
        cases eq_dice_of_mem hnumber hd hdelimiter
  rw [constant, hread]
  rfl

/-- What scanning does at the start of a text: the lexeme is the longest match, and it is read as the
token that this match stands for. -/
structure Step (c : Char) (rest : List Char) (kind : Kind) (behind : List Char)
    (token? : Option Token) : Prop where
  text : c :: rest = (first c rest).text ++ behind
  longest : IsLongest (c :: rest) kind (first c rest).text
  stands : StandsFor kind (first c rest).text behind token?
  read : ∀ position, (first c rest).token? position = .ok token?

theorem Step.drop_eq {behind : List Char} {token? : Option Token}
    (h : Step c rest kind behind token?) :
    rest.drop ((first c rest).text.length - 1) = behind := by
  obtain ⟨d, tail, hcons⟩ := List.exists_cons_of_ne_nil h.longest.ne_nil
  have htext := h.text
  rw [hcons, List.cons_append, List.cons.injEq] at htext
  rw [hcons, htext.2]
  exact List.drop_left

theorem Step.of_first {lexeme : Lexeme} {behind : List Char} {token? : Option Token}
    (hfirst : first c rest = lexeme) (htext : lexeme.text ++ behind = c :: rest)
    (hlongest : IsLongest (c :: rest) kind lexeme.text)
    (hstands : StandsFor kind lexeme.text behind token?)
    (hread : ∀ position, lexeme.token? position = .ok token?) : Step c rest kind behind token? := by
  subst hfirst
  exact ⟨htext.symm, hlongest, hstands, hread⟩

theorem step_of_dice {parts : DiceParts} (h : DiceParts.first? (c :: rest) = some parts) :
    ∃ behind token?, Step c rest .dice behind token? := by
  have hlongest := isLongest_dice h
  obtain ⟨behind, hbehind⟩ := hlongest.starts
  have hbreaks : parts.breaksOff behind.head? = true ↔ BreaksOff parts.text behind :=
    breaksOff_iff (hbehind ▸ h)
  have hfirst : first c rest =
      ⟨if parts.breaksOff behind.head? then .number else .dice, parts.text⟩ := by
    simp only [first, dice?, h, Option.map_some, Option.getD_some, drop_of_append_eq hbehind]
  by_cases hbroken : parts.breaksOff behind.head? = true
  · -- scanned as a number, although the match is a dice literal
    rw [if_pos hbroken] at hfirst
    have hvalue := constant_of_matches_dice hlongest.matched
    refine ⟨behind, _, .of_first hfirst hbehind hlongest (.brokenDice (hbreaks.mp hbroken)) ?_⟩
    intro position
    rw [token?, hvalue]
  · rw [if_neg hbroken] at hfirst
    obtain ⟨group, hgroup⟩ := Literal.exists_readDice (DiceParts.wellFormed_of_first? h).1
    have hwhole : ¬ BreaksOff parts.text behind := fun hoff => hbroken (hbreaks.mpr hoff)
    have hread : Literal.read (String.ofList parts.text) =
        .ok ⟨String.ofList parts.text, group⟩ := by
      rw [Literal.read, String.toList_ofList, hgroup]
      rfl
    refine ⟨behind, _, .of_first hfirst hbehind hlongest (.dice hwhole hgroup) ?_⟩
    intro position
    simp only [token?, hread]

theorem exists_token?_of_matches {lexeme : Lexeme} (hdice : lexeme.kind ≠ .dice)
    (hmatched : lexeme.kind.Matches lexeme.text) (behind : List Char) :
    ∃ token?, StandsFor lexeme.kind lexeme.text behind token? ∧
      ∀ position, lexeme.token? position = .ok token? := by
  obtain ⟨kind, word⟩ := lexeme
  cases kind with
  | dice => exact absurd rfl hdice
  | unknown => exact absurd hmatched not_matches_unknown
  | blank => exact ⟨none, .blank word behind, fun _ => rfl⟩
  | number =>
      refine ⟨some (.number (constant word)), ?_, fun _ => rfl⟩
      rw [constant_of_mem_number hmatched]
      exact .number word behind
  | operator op => exact ⟨some (.operator op), .operator op word behind, fun _ => rfl⟩
  | leftParen => exact ⟨some .leftParen, .leftParen word behind, fun _ => rfl⟩
  | rightParen => exact ⟨some .rightParen, .rightParen word behind, fun _ => rfl⟩

theorem step_of_simple (h : DiceParts.first? (c :: rest) = none) :
    (∃ kind behind token?, Step c rest kind behind token?) ∨
      first c rest = ⟨.unknown, [c]⟩ ∧ Unmatched (c :: rest) := by
  have hfirst : first c rest = simple c rest := by simp [first, dice?, h]
  rcases isLongest_simple h with hlongest | ⟨hunknown, hunmatched⟩
  · left
    obtain ⟨behind, hbehind⟩ := hlongest.starts
    have hdice : (simple c rest).kind ≠ .dice := fun hdice =>
      not_matches_dice h hlongest.starts (hdice ▸ hlongest.matched)
    obtain ⟨token?, hstands, hread⟩ := exists_token?_of_matches hdice hlongest.matched behind
    exact ⟨_, behind, token?, .of_first hfirst hbehind hlongest hstands hread⟩
  · exact .inr ⟨hfirst.trans hunknown, hunmatched⟩

/-- Scanning makes a step at the start of a text unless no pattern matches there. -/
theorem exists_step (c : Char) (rest : List Char) :
    (∃ kind behind token?, Step c rest kind behind token?) ∨
      first c rest = ⟨.unknown, [c]⟩ ∧ Unmatched (c :: rest) := by
  cases h : DiceParts.first? (c :: rest) with
  | none => exact step_of_simple h
  | some parts => exact .inl ⟨.dice, step_of_dice h⟩

/-! ## Cutting by longest match -/

theorem StandsFor.unique {token? token?' : Option Token} (h : StandsFor kind word rest token?)
    (h' : StandsFor kind word rest token?') : token? = token?' := by
  cases h with
  | dice hwhole hread =>
      cases h' with
      | dice _ hread' =>
          cases hread.symm.trans hread'
          rfl
      | brokenDice hbroken => exact absurd hbroken hwhole
  | brokenDice hbroken =>
      cases h' with
      | dice hwhole _ => exact absurd hbroken hwhole
      | brokenDice _ => rfl
  | _ =>
      cases h'
      rfl

/-- Where a text is cut, a pattern matches. -/
theorem IsLongest.not_stop (h : IsLongest text kind word) : ¬ (text = [] ∨ Unmatched text) := by
  rintro (rfl | hunmatched)
  · exact h.ne_nil (List.prefix_nil.mp h.starts)
  · exact h.ne_nil (hunmatched kind word h.starts h.matched)

/-- A text that is cut as far as possible is cut in one way. -/
theorem Lexes.unique (h : Lexes text words tokens stop) (hstop : stop = [] ∨ Unmatched stop)
    (h' : Lexes text words' tokens' stop') (hstop' : stop' = [] ∨ Unmatched stop') :
    words = words' ∧ tokens = tokens' ∧ stop = stop' := by
  induction h generalizing words' tokens' stop' with
  | stop text =>
      cases h' with
      | stop => exact ⟨rfl, rfl, rfl⟩
      | next hlongest _ _ => exact absurd hstop hlongest.not_stop
  | @next kind word rest stop token? words tokens hlongest hstands hrest ih =>
      -- the second cutting is of the same text, but need not take the same word off it
      generalize htext : word ++ rest = text at h' hlongest
      cases h' with
      | stop => exact absurd hstop' hlongest.not_stop
      | next hlongest' hstands' hrest' =>
          obtain ⟨rfl, rfl⟩ := hlongest.unique hlongest'
          obtain rfl := List.append_cancel_left htext
          obtain rfl := hstands.unique hstands'
          obtain ⟨rfl, rfl, rfl⟩ := ih hstop hrest' hstop'
          exact ⟨rfl, rfl, rfl⟩

/-- The words and the rest make up the text. -/
theorem Lexes.flatten_append (h : Lexes text words tokens stop) : words.flatten ++ stop = text := by
  induction h with
  | stop text => rfl
  | next _ _ _ ih => rw [List.flatten_cons, List.append_assoc, ih]

end Lexeme

namespace Token

open Lexeme

variable {position : Nat} {text : List Char} {tokens : List Token} {e : Error}

/-- What scanning answers for a text that is cut into `words` up to `stop`. -/
def outcome (position : Nat) (words : List (List Char)) (tokens : List Token) :
    List Char → Except Error (List Token)
  | [] => .ok tokens
  | c :: _ => .error (.unexpectedChar c (position + words.flatten.length))

theorem scanFrom_of_step {c : Char} {rest behind : List Char} {kind : Kind} {token? : Option Token}
    (h : Step c rest kind behind token?) (position : Nat) :
    scanFrom position (c :: rest) =
      (scanFrom (position + (first c rest).text.length) behind).map (token?.toList ++ ·) := by
  rw [scanFrom, h.read, h.drop_eq]
  cases scanFrom (position + (first c rest).text.length) behind with
  | error e => rfl
  | ok tokens => rfl

/-- Every text is cut as far as possible, and scanning answers accordingly. -/
theorem exists_lexes (position : Nat) (text : List Char) :
    ∃ words tokens stop, Lexes text words tokens stop ∧ (stop = [] ∨ Unmatched stop) ∧
      scanFrom position text = outcome position words tokens stop := by
  induction position, text using scanFrom.induct with
  | case1 position =>
      refine ⟨[], [], [], .stop [], .inl rfl, ?_⟩
      rw [scanFrom, outcome]
  | case2 position c rest lexeme ih =>
      rcases exists_step c rest with ⟨kind, behind, token?, hstep⟩ | ⟨hunknown, hunmatched⟩
      · obtain ⟨words, tokens, stop, hlexes, hstop, hscan⟩ := ih
        rw [hstep.drop_eq] at hlexes hscan
        refine ⟨lexeme.text :: words, token?.toList ++ tokens, stop, ?_, hstop, ?_⟩
        · have hlongest := hstep.longest
          rw [hstep.text] at hlongest ⊢
          exact .next hlongest hstep.stands hlexes
        · rw [scanFrom_of_step hstep, hscan]
          cases stop with
          | nil => rfl
          | cons d behind =>
              -- an error keeps its place: the lexeme is counted in the position or in the words
              simp only [outcome, Except.map, List.flatten_cons, List.length_append, Nat.add_assoc]
      · refine ⟨[], [], c :: rest, .stop _, .inr hunmatched, ?_⟩
        rw [scanFrom, hunknown]
        rfl

/-- The cutting decides what scanning answers. -/
theorem scanFrom_of_lexes {words : List (List Char)} {stop : List Char}
    (h : Lexes text words tokens stop) (hstop : stop = [] ∨ Unmatched stop) (position : Nat) :
    scanFrom position text = outcome position words tokens stop := by
  obtain ⟨words', tokens', stop', h', hstop', hscan⟩ := exists_lexes position text
  obtain ⟨rfl, rfl, rfl⟩ := h.unique hstop h' hstop'
  exact hscan

theorem scanFrom_eq_ok_iff :
    scanFrom position text = .ok tokens ↔ ∃ words, Lexes text words tokens [] := by
  constructor
  · intro h
    obtain ⟨words, tokens', stop, hlexes, -, hscan⟩ := exists_lexes position text
    rw [h] at hscan
    cases stop with
    | nil =>
        cases hscan
        exact ⟨words, hlexes⟩
    | cons c rest => cases hscan
  · rintro ⟨words, h⟩
    exact scanFrom_of_lexes h (.inl rfl) position

theorem scanFrom_eq_error_iff :
    scanFrom position text = .error e ↔ ∃ words tokens c rest, Lexes text words tokens (c :: rest) ∧
      Unmatched (c :: rest) ∧ e = .unexpectedChar c (position + words.flatten.length) := by
  constructor
  · intro h
    obtain ⟨words, tokens', stop, hlexes, hstop, hscan⟩ := exists_lexes position text
    rw [h] at hscan
    cases stop with
    | nil => cases hscan
    | cons c rest =>
        cases hscan
        exact ⟨words, tokens', c, rest, hlexes, hstop.resolve_left (List.cons_ne_nil c rest), rfl⟩
  · rintro ⟨words, tokens', c, rest, hlexes, hunmatched, rfl⟩
    exact scanFrom_of_lexes hlexes (.inr hunmatched) position

/-- Scanning cuts a text by longest match and loses nothing. It fails exactly if the cutting comes to a
place where no pattern matches, and names the character there and how many stand before it. -/
theorem scan_longest_match (text : String) :
    (∀ tokens, scan text = .ok tokens ↔
      ∃ words, Lexes text.toList words tokens [] ∧ words.flatten = text.toList) ∧
    (∀ e, scan text = .error e ↔
      ∃ words tokens c rest, Lexes text.toList words tokens (c :: rest) ∧ Unmatched (c :: rest) ∧
        words.flatten ++ c :: rest = text.toList ∧
        e = .unexpectedChar c words.flatten.length) := by
  constructor
  · intro tokens
    rw [scan, scanFrom_eq_ok_iff]
    constructor
    · rintro ⟨words, h⟩
      exact ⟨words, h, by simpa using h.flatten_append⟩
    · rintro ⟨words, h, -⟩
      exact ⟨words, h⟩
  · intro e
    rw [scan, scanFrom_eq_error_iff]
    simp only [Nat.zero_add]
    constructor
    · rintro ⟨words, tokens, c, rest, h, hunmatched, he⟩
      exact ⟨words, tokens, c, rest, h, hunmatched, h.flatten_append, he⟩
    · rintro ⟨words, tokens, c, rest, h, hunmatched, -, he⟩
      exact ⟨words, tokens, c, rest, h, hunmatched, he⟩

end Token

end DiceNotation
