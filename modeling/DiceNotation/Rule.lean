import DiceNotation.Limits
import DiceNotation.Roll.Basic
import DiceNotation.Source.Basic

/-!
# Rules

A rule says how a group of dice is rolled. It checks the group against the limits and only then
draws. Standard dice explode and take selections; fudge dice count -1, 0 or 1 and take selections;
duality dice come in pairs; faction dice are read as symbols, and each crit among the dice asked
for adds one die. A rule can roll any group, but a rulebook gives it only its own kinds.
-/

namespace DiceNotation

inductive Rule where
  | duality
  | fudge
  | faction
  | standard
deriving DecidableEq

namespace Rule

def name : Rule → String
  | duality => "duality"
  | fudge => "fudge"
  | faction => "faction"
  | standard => "standard"

def handles : Rule → DiceKind → Bool
  | duality, .duality => true
  | fudge, .fudge => true
  | faction, .factionAttack => true
  | faction, .factionDefense => true
  | standard, .standard => true
  | _, _ => false

def checkCount (limits : Limits) (dice : Dice) : Except Error Unit :=
  if dice.count.val ≤ limits.dice then .ok () else .error (.diceCount dice.count.val limits.dice)

def checkSides (limits : Limits) (dice : Dice) : Except Error Unit :=
  if dice.sides.val ≤ limits.sides then .ok () else .error (.diceSides dice.sides.val limits.sides)

/-- Fudge and faction dice are not held to the ceiling on faces. -/
def check (rule : Rule) (limits : Limits) (dice : Dice) : Except Error Unit :=
  match rule with
  | standard | duality => do
    checkCount limits dice
    checkSides limits dice
  | fudge | faction => checkCount limits dice

variable {σ : Type}

/-- The draws of one die: it is drawn again after its highest face, at most `extra` times. -/
def chain (source : Source σ) (sides : Int64) : Nat → Play σ (List Int64)
  | 0 => return [← source.face sides]
  | extra + 1 => do
    let value ← source.face sides
    if value = sides then return value :: (← chain source sides extra)
    else return [value]

/-- How often a die of the group is drawn again at most. -/
def extraDraws (limits : Limits) (dice : Dice) : Nat :=
  if dice.explode then limits.explosionDepth - 1 else 0

/-- A roll of a whole group, of which the group's selection drops some. -/
def selected (literal : Literal) (draws : List Int64) (details : List Detail) : Roll :=
  let dropped := literal.dice.dropped draws
  { total := keptTotal draws dropped, draws, dropped, modifier := 0, label := literal.text, details }

def rollStandard (limits : Limits) (source : Source σ) (literal : Literal) : Play σ Roll := do
  let dice := literal.dice
  let chains ← Play.times dice.count.val
    (chain source dice.sides.toInt64 (extraDraws limits dice))
  return selected literal chains.flatten []

def rollFudge (source : Source σ) (literal : Literal) : Play σ Roll := do
  let faces ← Play.times literal.dice.count.val (source.face 3)
  return selected literal (faces.map (· - 2)) [⟨0, .fudge⟩]

/-- A list that must not be empty. -/
def nonEmpty {α : Type} (cause : Error) (values : List α) : Except Error (List α) :=
  if values.isEmpty then .error cause else .ok values

/-- The primary die is drawn first. -/
def dualityPair (source : Source σ) (sides : Int64) : Play σ DualityPair := do
  let primary ← source.face sides
  let secondary ← source.face sides
  return .of primary secondary

def rollDuality (source : Source σ) (literal : Literal) : Play σ Roll := do
  let dice := literal.dice
  let rolled ← Play.times dice.count.val (dualityPair source dice.sides.toInt64)
  let pairs ← Play.ofExcept (nonEmpty .noPairs rolled)
  let draws := pairs.flatMap DualityPair.faces
  return { total := draws.sum, draws, dropped := [], modifier := 0, label := literal.text,
           details := [⟨0, .duality pairs⟩] }

def profile : DiceKind → FactionProfile
  | .factionAttack => .attack
  | _ => .defense

/-- Crits on bonus dice add nothing. -/
def rollFaction (source : Source σ) (literal : Literal) : Play σ Roll := do
  let dice := literal.dice
  let face := source.face dice.sides.toInt64
  let symbol := FactionSymbol.of (profile dice.kind)
  let base ← Play.times dice.count.val face
  let bonus ← Play.times (base.countP (symbol · = .crit)) face
  let draws := base ++ bonus
  let symbols ← Play.ofExcept (nonEmpty .noSymbols (draws.map symbol))
  return { total := 0, draws, dropped := [], modifier := 0, label := literal.text,
           details := [⟨0, .faction ⟨profile dice.kind, symbols, dice.count.val⟩⟩] }

def roll (rule : Rule) (limits : Limits) (source : Source σ) (literal : Literal) :
    Play σ Roll := do
  Play.ofExcept (rule.check limits literal.dice)
  match rule with
  | duality => rollDuality source literal
  | fudge => rollFudge source literal
  | faction => rollFaction source literal
  | standard => rollStandard limits source literal

end Rule

/-- The rules of a table. A group of dice is rolled by the first rule that handles its kind. -/
structure Rulebook where
  rules : List Rule
deriving DecidableEq

namespace Rulebook

def full : Rulebook :=
  ⟨[.duality, .fudge, .faction, .standard]⟩

def ruleFor (rulebook : Rulebook) (literal : Literal) : Except Error Rule :=
  match rulebook.rules.find? (·.handles literal.dice.kind) with
  | some rule => .ok rule
  | none => .error (.noRule literal.text)

end Rulebook

end DiceNotation
