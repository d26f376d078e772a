import DiceNotation.Proofs.LiteralSpelling
import DiceNotation.Proofs.Scanning
import DiceNotation.Proofs.Trimming

/-!
# The case of letters

No pattern tells the two cases of a letter apart, and neither does the reader of literals. So a text
and the same text in lower case are cut at the same places, and into words of the same kinds: they
stand for the same tokens, but for the text that a group of dice keeps.
-/

namespace DiceNotation

open RegularExpression

variable {text word rest stop digits chars : List Char} {c : Char}

/-! ## Patterns -/

/-- The list has both cases of each letter in it. -/
def hasBothCases (chars : List Char) : Bool :=
  chars.all fun c => chars.contains c.toLower && chars.contains c.toUpper

theorem toLower_mem_iff (hchars : hasBothCases chars = true) :
    c.toLower ∈ chars ↔ c ∈ chars := by
  have hboth : ∀ c ∈ chars, c.toLower ∈ chars ∧ c.toUpper ∈ chars := by
    simpa [hasBothCases] using hchars
  constructor
  · intro h
    by_cases hupper : c.isUpper = true
    · -- the upper case of its lower case is the letter itself
      have hc : c.toLower.toUpper = c := by
        rw [Char.toUpper_toLower_eq_toUpper,
          Char.toUpper_eq_of_not_isLower (Char.not_isLower_of_isUpper hupper)]
      exact hc ▸ (hboth c.toLower h).2
    · rwa [Char.toLower_eq_of_not_isUpper hupper] at h
  · exact fun h => (hboth c h).1

namespace Pattern

/-- The pattern matches a word if it matches the word in lower case. -/
def Caseless (pattern : RegularExpression Char) : Prop :=
  ∀ w : List Char, w.map Char.toLower ∈ pattern.matches' ↔ w ∈ pattern.matches'

variable {p q : RegularExpression Char}

theorem caseless_oneOf (hboth : hasBothCases chars = true) : Caseless (oneOf chars) := by
  intro w
  rw [mem_oneOf, mem_oneOf]
  constructor
  · rintro ⟨d, hd, hw⟩
    obtain ⟨c, rfl, rfl⟩ := List.map_eq_singleton_iff.mp hw
    exact ⟨c, (toLower_mem_iff hboth).mp hd, rfl⟩
  · rintro ⟨c, hc, rfl⟩
    exact ⟨c.toLower, (toLower_mem_iff hboth).mpr hc, rfl⟩

theorem caseless_star_oneOf (hboth : hasBothCases chars = true) : Caseless (oneOf chars).star := by
  intro w
  simp only [mem_star_oneOf, List.forall_mem_map, toLower_mem_iff hboth]

/-- A character that is no letter. -/
theorem caseless_char (hboth : hasBothCases [c] = true) : Caseless (char c) := by
  have hone : ∀ w, w ∈ (char c).matches' ↔ w ∈ (oneOf [c]).matches' := by
    intro w
    rw [mem_char, mem_oneOf]
    simp
  intro w
  rw [hone, hone, caseless_oneOf hboth w]

theorem Caseless.add (hp : Caseless p) (hq : Caseless q) : Caseless (p + q) := by
  intro w
  rw [mem_add, mem_add, hp w, hq w]

theorem Caseless.mul (hp : Caseless p) (hq : Caseless q) : Caseless (p * q) := by
  intro w
  rw [mem_mul, mem_mul]
  constructor
  · rintro ⟨u', v', hu, hv, hw⟩
    obtain ⟨u, v, rfl, rfl, rfl⟩ := List.map_eq_append_iff.mp hw
    exact ⟨u, v, (hp u).mp hu, (hq v).mp hv, rfl⟩
  · rintro ⟨u, v, hu, hv, rfl⟩
    exact ⟨_, _, (hp u).mpr hu, (hq v).mpr hv, List.map_append⟩

theorem Caseless.optional (hp : Caseless p) : Caseless (optional p) := by
  intro w
  rw [mem_optional, mem_optional, hp w, List.map_eq_nil_iff]

theorem caseless_number : Caseless number :=
  (caseless_oneOf (by decide)).mul (caseless_star_oneOf (by decide))

theorem caseless_positive : Caseless positive :=
  (caseless_oneOf (by decide)).mul (caseless_star_oneOf (by decide))

theorem caseless_delimiter : Caseless delimiter :=
  caseless_oneOf (by decide)

theorem caseless_namedSides : Caseless namedSides := by
  intro w
  have hpercent : w.map Char.toLower = ['%'] ↔ w = ['%'] := caseless_char (by decide) w
  rw [mem_namedSides, mem_namedSides, hpercent, map_toLower_map_toLower]

theorem caseless_bang : Caseless bang :=
  caseless_char (by decide)

theorem caseless_selection : Caseless selection :=
  ((caseless_oneOf (by decide)).mul (caseless_oneOf (by decide)).optional).mul caseless_positive

theorem caseless_dice : Caseless dice :=
  (((caseless_positive.optional.mul caseless_delimiter).mul
    (caseless_positive.add caseless_namedSides)).mul caseless_bang.optional).mul
    caseless_selection.optional

theorem caseless_countedNamed : Caseless countedNamed :=
  ((caseless_positive.mul caseless_delimiter).mul caseless_namedSides).mul caseless_bang.optional

theorem caseless_blanks : Caseless blanks :=
  (caseless_oneOf (by decide)).mul (caseless_star_oneOf (by decide))

end Pattern

namespace Lexeme

theorem Kind.caseless_pattern (kind : Kind) : Pattern.Caseless kind.pattern := by
  cases kind with
  | blank => exact Pattern.caseless_blanks
  | dice => exact Pattern.caseless_dice
  | number => exact Pattern.caseless_number
  | operator op => cases op <;> exact Pattern.caseless_char (by decide)
  | leftParen => exact Pattern.caseless_char (by decide)
  | rightParen => exact Pattern.caseless_char (by decide)
  | unknown => exact fun w => Iff.rfl

/-! ## The longest match -/

theorem IsLongest.map_toLower {kind : Kind} (h : IsLongest text kind word) :
    IsLongest (text.map Char.toLower) kind (word.map Char.toLower) where
  ne_nil := by simpa using h.ne_nil
  starts := h.starts.map _
  matched := (kind.caseless_pattern word).mpr h.matched
  longest := by
    intro other w' hstarts hmatches
    obtain ⟨w, hw, rfl⟩ := List.prefix_map_iff.mp hstarts
    simpa using h.longest other w hw ((other.caseless_pattern w).mp hmatches)

theorem Unmatched.map_toLower (h : Unmatched text) : Unmatched (text.map Char.toLower) := by
  intro kind w' hstarts hmatches
  obtain ⟨w, hw, rfl⟩ := List.prefix_map_iff.mp hstarts
  rw [h kind w hw ((kind.caseless_pattern w).mp hmatches), List.map_nil]

theorem breaksOff_map_toLower :
    BreaksOff (word.map Char.toLower) (rest.map Char.toLower) ↔ BreaksOff word rest := by
  refine and_congr (Pattern.caseless_countedNamed word) (and_congr ?_ (not_congr ?_))
  · have hletters : ∀ c, c.toLower ∈ ['k', 'K', 'd', 'D'] ↔ c ∈ ['k', 'K', 'd', 'D'] :=
      fun c => toLower_mem_iff (by decide)
    cases rest with
    | nil => simp
    | cons c tail => simpa [eq_comm] using hletters c
  · constructor
    · rintro ⟨w', hstarts, hmatches⟩
      obtain ⟨w, hw, rfl⟩ := List.prefix_map_iff.mp hstarts
      exact ⟨w, hw, (Pattern.caseless_selection w).mp hmatches⟩
    · rintro ⟨w, hw, hmatches⟩
      exact ⟨_, hw.map _, (Pattern.caseless_selection w).mpr hmatches⟩

end Lexeme

/-! ## Literals -/

theorem map_toLower_of_digits (h : ∀ c ∈ digits, c.isDigit = true) :
    digits.map Char.toLower = digits := by
  have hsame : ∀ c ∈ digits, c.toLower = c := by
    intro c hc
    simpa using of_isDigit (p := fun c => c.toLower == c) (by decide) (h c hc)
  simpa using List.map_congr_left hsame

theorem Quantity.WrittenAs.map_toLower {q : Quantity} (h : q.WrittenAs digits) :
    q.WrittenAs (digits.map Char.toLower) := by
  rwa [map_toLower_of_digits h.digits]

theorem DiceKind.WrittenAs.map_toLower {kind : DiceKind} {sides : Quantity}
    (h : kind.WrittenAs sides text) : kind.WrittenAs sides (text.map Char.toLower) := by
  cases h with
  | percent hsides => exact .percent hsides
  | number hsides => exact .number hsides.map_toLower
  | tag hrow => exact .tag (by rwa [map_toLower_map_toLower])

theorem Selection.WrittenAs.map_toLower {s : Selection} (h : s.WrittenAs text) :
    s.WrittenAs (text.map Char.toLower) := by
  cases h with
  | directed hmode hdirection hamount =>
      refine .directed ?_ ?_ hamount.map_toLower
      · rwa [Char.toLower_toLower_eq_toLower]
      · rwa [Char.toLower_toLower_eq_toLower]
  | undirected hmode hdefault hamount =>
      refine .undirected ?_ hdefault hamount.map_toLower
      rwa [Char.toLower_toLower_eq_toLower]

namespace Lexeme.DiceParts

def inLowerCase (parts : DiceParts) : DiceParts where
  count := parts.count.map Char.toLower
  delimiter := parts.delimiter.toLower
  sides := parts.sides.map Char.toLower
  bang := parts.bang.map Char.toLower
  selection := parts.selection.map Char.toLower

theorem text_inLowerCase (parts : DiceParts) :
    parts.inLowerCase.text = parts.text.map Char.toLower := by
  simp [text, inLowerCase]

/-- What the parts say does not depend on their case. -/
theorem Spells.inLowerCase {parts : DiceParts} {dice : Dice} (h : parts.Spells dice) :
    parts.inLowerCase.Spells dice where
  count := by
    refine h.count.imp ?_ Quantity.WrittenAs.map_toLower
    rintro ⟨hnil, hone⟩
    exact ⟨List.map_eq_nil_iff.mpr hnil, hone⟩
  delimiter := by
    left
    show parts.delimiter.toLower = 'd'
    rcases h.delimiter with hd | hd <;> rw [hd] <;> rfl
  sides := h.sides.map_toLower
  bang := by
    show parts.bang.map Char.toLower = _
    rw [h.bang]
    cases dice.explode <;> rfl
  selection := by
    refine h.selection.imp ?_ ?_
    · rintro ⟨hnil, hnone⟩
      exact ⟨List.map_eq_nil_iff.mpr hnil, hnone⟩
    · rintro ⟨s, hs, hwritten⟩
      exact ⟨s, hs, hwritten.map_toLower⟩

end Lexeme.DiceParts

theorem Literal.readDice_map_toLower {dice : Dice} (h : readDice text = .ok dice) :
    readDice (text.map Char.toLower) = .ok dice := by
  obtain ⟨parts, rfl, hspells⟩ := readDice_eq_ok_iff_spells.mp h
  exact readDice_eq_ok_iff_spells.mpr ⟨_, parts.text_inLowerCase, hspells.inLowerCase⟩

/-! ## Tokens and errors -/

theorem toLower_ofList (text : List Char) :
    (String.ofList text).toLower = String.ofList (text.map Char.toLower) := by
  rw [String.toLower, ← String.toList_inj, String.toList_map, String.toList_ofList,
    String.toList_ofList]

/-- Only a group of dice keeps its text. -/
def Token.inLowerCase : Token → Token
  | dice literal => dice { literal with text := literal.text.toLower }
  | token => token

def LiteralError.inLowerCase : LiteralError → LiteralError
  | noDelimiter => noDelimiter
  | count text => count text.toLower
  | sides text => sides text.toLower
  | selection text => selection text.toLower

/-- The error with what it quotes of an expression in lower case. -/
def Error.inLowerCase : Error → Error
  | unexpectedChar found position => unexpectedChar found.toLower position
  | noRule literal => noRule literal.toLower
  | unreadableLiteral literal cause => unreadableLiteral literal.toLower cause.inLowerCase
  | e => e

/-- An outcome in lower case, where `fold` does this for its value. -/
def Outcome.inLowerCase {α : Type} (fold : α → α) : Except Error α → Except Error α
  | .ok a => .ok (fold a)
  | .error e => .error e.inLowerCase

/-! ## Scanning -/

namespace Lexeme

theorem StandsFor.map_toLower {kind : Kind} {token? : Option Token} (hmatched : kind.Matches word)
    (h : StandsFor kind word rest token?) :
    StandsFor kind (word.map Char.toLower) (rest.map Char.toLower)
      (token?.map Token.inLowerCase) := by
  cases h with
  | blank => exact .blank _ _
  | number =>
      have hdigits := (Pattern.mem_number.mp hmatched).2
      rw [map_toLower_of_digits hdigits]
      exact .number word _
  | operator op => exact .operator op _ _
  | leftParen => exact .leftParen _ _
  | rightParen => exact .rightParen _ _
  | dice hwhole hread =>
      have hdice := StandsFor.dice (mt breaksOff_map_toLower.mp hwhole)
        (Literal.readDice_map_toLower hread)
      rw [← toLower_ofList] at hdice
      exact hdice
  | brokenDice hbroken => exact .brokenDice (breaksOff_map_toLower.mpr hbroken)

/-- A text in lower case is cut as the text is. -/
theorem Lexes.map_toLower {words : List (List Char)} {tokens : List Token}
    (h : Lexes text words tokens stop) :
    Lexes (text.map Char.toLower) (words.map (·.map Char.toLower)) (tokens.map Token.inLowerCase)
      (stop.map Char.toLower) := by
  induction h with
  | stop text => exact .stop _
  | @next kind word rest stop token? words tokens hlongest hstands hrest ih =>
      have hlongest' := hlongest.map_toLower
      rw [List.map_append] at hlongest'
      have hnext := Lexes.next hlongest' (hstands.map_toLower hlongest.matched) ih
      rw [Option.toList_map, ← List.map_append, ← List.map_append] at hnext
      exact hnext

end Lexeme

namespace Token

open Lexeme

theorem outcome_map_toLower (position : Nat) (words : List (List Char)) (tokens : List Token)
    (stop : List Char) :
    outcome position (words.map (·.map Char.toLower)) (tokens.map inLowerCase)
        (stop.map Char.toLower) =
      Outcome.inLowerCase (·.map inLowerCase) (outcome position words tokens stop) := by
  cases stop with
  | nil => rfl
  | cons c rest =>
      have hlength : (words.map (·.map Char.toLower)).flatten.length = words.flatten.length := by
        rw [← List.map_flatten, List.length_map]
      rw [List.map_cons, outcome, outcome, hlength]
      rfl

/-- Scanning a text in lower case gives what scanning the text gives, in lower case. -/
theorem scan_toLower (text : String) :
    scan text.toLower = Outcome.inLowerCase (·.map inLowerCase) (scan text) := by
  obtain ⟨words, tokens, stop, hlexes, hstop, hscan⟩ := exists_lexes 0 text.toList
  have hstop' : stop.map Char.toLower = [] ∨ Unmatched (stop.map Char.toLower) :=
    hstop.imp List.map_eq_nil_iff.mpr Unmatched.map_toLower
  rw [scan, scan, String.toLower, String.toList_map, hscan,
    scanFrom_of_lexes hlexes.map_toLower hstop', outcome_map_toLower]

end Token

end DiceNotation
