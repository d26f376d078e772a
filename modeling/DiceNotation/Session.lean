import DiceNotation.GameSystem.Basic
import DiceNotation.Table

/-!
# Sessions

A session goes on from roll to roll: it holds the game system in effect and the state of the random
source. A failed roll keeps the draws it has made; an unknown system keeps the one in effect.
-/

namespace DiceNotation

structure Session (σ : Type) where
  system : GameSystem
  state : σ

namespace Session

variable {σ : Type}

def start (state : σ) : Session σ :=
  ⟨.standard, state⟩

def choose (session : Session σ) (name : String) :
    Except UnknownSystem GameSystem × Session σ :=
  match GameSystem.ofName name with
  | .ok system => (.ok system, { session with system })
  | .error unknown => (.error unknown, session)

def play {α : Type} (session : Session σ) (action : Play σ α) : Except Error α × Session σ :=
  let (result, state) := action session.state
  (result, { session with state })

/-- Rolls a text in which the shorthand of the system in effect is expanded. -/
def roll (table : Table) (source : Source σ) (session : Session σ) (text : String) :
    Except Error Roll × Session σ :=
  session.play (table.roll source (session.system.expand text))

end Session

end DiceNotation
