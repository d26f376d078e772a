import DiceNotation.Text.Folded

/-!
# Aliases

Shorthand is replaced from left to right: where a pattern matches, its replacement is written and
the search goes on behind the match. Letters match in any case, which includes the long s `ſ` for
`s` and the Kelvin sign for `k`.
-/

namespace DiceNotation.Alias

/-- The simple case folding of Unicode as far as it gives an ASCII letter. -/
def foldCase (c : Char) : Char :=
  if c = '\u017f' then 's' else if c = '\u212a' then 'k' else c.toLower

/-- A match at the start of a text: how many characters it has, and what is written for them. -/
structure Match where
  width : Nat
  replacement : List Char
deriving DecidableEq

/-- A pattern looks for a match at the start of a text that is not empty. -/
abbrev Pattern :=
  Char → List Char → Option Match

/-- The text with every match replaced, and whether there was one. -/
def replaceAll (pattern : Pattern) : List Char → List Char × Bool
  | [] => ([], false)
  | c :: rest =>
    match pattern c rest with
    | none =>
      let (text, found) := replaceAll pattern rest
      (c :: text, found)
    | some found =>
      let (text, _) := replaceAll pattern (rest.drop (found.width - 1))
      (found.replacement ++ text, true)
termination_by text => text.length
decreasing_by
  · simp
  · simp only [List.length_cons, List.length_drop]
    omega

/-- Whether a character behind a `d` belongs to the same literal. -/
def continuesDie (c : Char) : Bool :=
  (foldCase c).isAlphanum || c == '%'

/-- A `d` with no faces behind it. The match includes the character that follows. The `d` is written
in lower case and the tag behind it; a count in front of it is no part of the match and stays. -/
def bareDie (tag : List Char) : Pattern := fun c rest =>
  if foldCase c ≠ 'd' then none
  else
    match rest with
    | [] => some ⟨1, 'd' :: tag⟩
    | next :: _ => if continuesDie next then none else some ⟨2, 'd' :: tag ++ [next]⟩

/-- A word in any case. -/
def word (letters replacement : List Char) : Pattern := fun c rest =>
  if startsFolded foldCase letters (c :: rest) then some ⟨letters.length, replacement⟩ else none

example : replaceAll (bareDie ['h']) "2d+d".toList = ("2dh+dh".toList, true) := by decide +kernel
example : replaceAll (bareDie ['h']) "d%d6".toList = ("d%d6".toList, false) := by decide +kernel

end DiceNotation.Alias
