import DiceNotation.Dice.Kind
import DiceNotation.GameSystem.Alias
import DiceNotation.Text.Blank
import DiceNotation.Text.Quoted

/-!
# Game systems

A table may play a system whose dice have a shorthand of their own. The shorthand is expanded in
the text of an expression, before that is read.
-/

namespace DiceNotation

inductive GameSystem where
  | standard
  | duality
  | fudge
  | faction
deriving DecidableEq

structure UnknownSystem where
  name : String
deriving DecidableEq

def UnknownSystem.message (unknown : UnknownSystem) : String :=
  "unknown system " ++ Quoted.ofString unknown.name

namespace GameSystem

def all : List GameSystem :=
  [standard, duality, fudge, faction]

def name : GameSystem → String
  | standard => "standard"
  | duality => "duality"
  | fudge => "fudge"
  | faction => "faction"

def description : GameSystem → String
  | standard => "no aliases"
  | duality => "duality dice (d -> dh)"
  | fudge => "fudge dice (4d -> 4dF)"
  | faction => "faction dice (dAtk -> dMcpAtk, dDef -> dMcpDef)"

/-- Names are read in any ASCII case and without blanks at their ends. Three systems have a second
name. -/
def ofName (name : String) : Except UnknownSystem GameSystem :=
  match String.ofList ((trim name.toList).map Char.toLower) with
  | "standard" => .ok .standard
  | "duality" | "daggerheart" => .ok .duality
  | "fudge" | "fate" => .ok .fudge
  | "faction" | "mcp" => .ok .faction
  | _ => .error ⟨name⟩

/-- The expanded text, and whether there was anything to expand. Attack dice are expanded before
defense dice. -/
def expandChars (system : GameSystem) (text : List Char) : List Char × Bool :=
  match system with
  | standard => (text, false)
  | duality => Alias.replaceAll (Alias.bareDie DiceKind.duality.tag) text
  | fudge => Alias.replaceAll (Alias.bareDie DiceKind.fudge.tag) text
  | faction =>
    let (text, attack) :=
      Alias.replaceAll (Alias.word ['d', 'a', 't', 'k'] ('d' :: DiceKind.factionAttack.tag)) text
    let (text, defense) :=
      Alias.replaceAll (Alias.word ['d', 'd', 'e', 'f'] ('d' :: DiceKind.factionDefense.tag)) text
    (text, attack || defense)

def expand (system : GameSystem) (text : String) : String :=
  String.ofList (system.expandChars text.toList).1

/-- Whether a text uses the system's shorthand. -/
def usesShorthand (system : GameSystem) (text : String) : Bool :=
  (system.expandChars text.toList).2

end GameSystem

end DiceNotation
