import DiceNotation.Text.Numeral

/-!
# Readings of special dice

What fudge, duality and faction dice say beside their faces: that a group is fudge dice, which of
the two dice of a pair leads, and the symbols that faction faces stand for.
-/

namespace DiceNotation

/-- Which die of a duality pair is higher. -/
inductive Lead where
  | primary
  | secondary
  | tie
deriving DecidableEq

namespace Lead

def of (primary secondary : Int64) : Lead :=
  if secondary < primary then .primary
  else if primary < secondary then .secondary
  else .tie

def render : Lead → String
  | primary => "PRIMARY"
  | secondary => "SECONDARY"
  | tie => "TIE"

end Lead

structure DualityPair where
  primary : Int64
  secondary : Int64
  lead : Lead
deriving DecidableEq

namespace DualityPair

def of (primary secondary : Int64) : DualityPair :=
  ⟨primary, secondary, .of primary secondary⟩

def faces (pair : DualityPair) : List Int64 :=
  [pair.primary, pair.secondary]

def render (pair : DualityPair) : String :=
  String.ofList (Numeral.ofInt64 pair.primary) ++ "/" ++
    String.ofList (Numeral.ofInt64 pair.secondary) ++ ": " ++ pair.lead.render

end DualityPair

inductive FactionProfile where
  | attack
  | defense
deriving DecidableEq

inductive FactionSymbol where
  | crit
  | wild
  | hit
  | block
  | blank
deriving DecidableEq

namespace FactionSymbol

/-- The table of symbols. A face that is not in it is blank. -/
def of (profile : FactionProfile) (face : Int64) : FactionSymbol :=
  if face = 8 then .crit
  else if face = 7 then .wild
  else
    match profile with
    | .attack => if face = 5 ∨ face = 6 then .hit else .blank
    | .defense => if face = 6 then .block else .blank

def isSuccess (symbol : FactionSymbol) : Bool :=
  symbol != .blank

def render : FactionSymbol → String
  | crit => "crit"
  | wild => "wild"
  | hit => "hit"
  | block => "block"
  | blank => "blank"

end FactionSymbol

/-- The symbols of a faction group. The first `base` come from the dice asked for, the others from
the bonus dice of crits. -/
structure FactionReading where
  profile : FactionProfile
  symbols : List FactionSymbol
  base : Nat
deriving DecidableEq

namespace FactionReading

def successes (reading : FactionReading) : Nat :=
  reading.symbols.countP FactionSymbol.isSuccess

def bonus (reading : FactionReading) : List FactionSymbol :=
  reading.symbols.drop reading.base

def render (reading : FactionReading) : String :=
  "\x7b" ++ ", ".intercalate (reading.symbols.map FactionSymbol.render) ++ " (" ++
    String.ofList (Numeral.ofNat reading.successes) ++ " successes)\x7d"

end FactionReading

inductive Reading where
  | fudge
  | duality (pairs : List DualityPair)
  | faction (reading : FactionReading)
deriving DecidableEq

namespace Reading

def render : Reading → String
  | fudge => "\x7bfudge\x7d"
  | duality pairs => "\x7b" ++ ", ".intercalate (pairs.map DualityPair.render) ++ "\x7d"
  | faction reading => reading.render

def faction? : Reading → Option FactionReading
  | faction reading => some reading
  | _ => none

end Reading

/-- The reading of one group, whose first draw is at position `offset`. -/
structure Detail where
  offset : Nat
  reading : Reading
deriving DecidableEq

namespace Detail

def shift (amount : Nat) (detail : Detail) : Detail :=
  { detail with offset := detail.offset + amount }

end Detail

end DiceNotation
