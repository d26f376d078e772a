import DiceNotation.Dice.Kind
import DiceNotation.Dice.Selection

/-!
# Groups of dice

A group is a number of equal dice that are rolled together. Its canonical text writes the count,
the faces or the tag, a `!` for exploding dice, and the selection with its direction.
-/

namespace DiceNotation

structure Dice where
  count : Quantity
  sides : Quantity
  kind : DiceKind
  explode : Bool
  selection? : Option Selection
deriving DecidableEq

namespace Dice

/-- Dice that do not explode and are all kept. -/
def plain (count sides : Quantity) (kind : DiceKind) : Dice :=
  ⟨count, sides, kind, false, none⟩

def renderSides (dice : Dice) : List Char :=
  match dice.kind with
  | .standard => Numeral.ofNat dice.sides.val
  | tagged => tagged.tag

def render (dice : Dice) : List Char :=
  Numeral.ofNat dice.count.val ++ 'd' :: dice.renderSides ++ (if dice.explode then ['!'] else []) ++
    (dice.selection?.map Selection.render).getD []

/-- The positions that the group's selection drops; none without a selection. -/
def dropped (dice : Dice) (values : List Int64) : List Nat :=
  match dice.selection? with
  | none => []
  | some selection => selection.dropped values

end Dice

end DiceNotation
