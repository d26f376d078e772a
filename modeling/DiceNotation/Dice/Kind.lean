import DiceNotation.Quantity
import DiceNotation.Text.Folded

/-!
# Kinds of dice

Standard dice have a number of faces; every other kind is written as a tag and has a fixed number
of faces. Tags are read in any case and written in the one given here.
-/

namespace DiceNotation

inductive DiceKind where
  | standard
  | fudge
  | duality
  | factionAttack
  | factionDefense
deriving DecidableEq

namespace DiceKind

def tag : DiceKind → List Char
  | standard => []
  | fudge => ['F']
  | duality => ['h']
  | factionAttack => ['M', 'c', 'p', 'A', 't', 'k']
  | factionDefense => ['M', 'c', 'p', 'D', 'e', 'f']

/-- The kinds that are written as a tag. No tag begins another one. -/
def tagged : List DiceKind :=
  [factionAttack, factionDefense, fudge, duality]

def foldedTag (kind : DiceKind) : List Char :=
  kind.tag.map Char.toLower

/-- The kind whose tag a text starts with. -/
def ofStart? (text : List Char) : Option DiceKind :=
  tagged.find? fun kind => startsFolded Char.toLower kind.foldedTag text

def ofTag? (tag : List Char) : Option DiceKind :=
  tagged.find? (·.foldedTag == tag.map Char.toLower)

/-- The faces that a tag implies. -/
def fixedSides? : DiceKind → Option Quantity
  | standard => none
  | fudge => some ⟨3, by decide, by decide⟩
  | duality => some ⟨12, by decide, by decide⟩
  | factionAttack | factionDefense => some ⟨8, by decide, by decide⟩

theorem ofTag?_tag {kind : DiceKind} (h : kind ∈ tagged) : ofTag? kind.tag = some kind := by
  simp only [tagged, List.mem_cons, List.not_mem_nil, or_false] at h
  rcases h with rfl | rfl | rfl | rfl <;> decide

end DiceKind

end DiceNotation
