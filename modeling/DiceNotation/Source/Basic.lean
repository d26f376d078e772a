import DiceNotation.Error

/-!
# Random sources

A source answers a request for the face of a die with so many sides, and moves from one state to
the next whether it answers or fails. It may fail with any error. `Play` is a computation that may
draw and may fail; `Source.recorded` adds a record of every draw to the state.
-/

namespace DiceNotation

structure Source (σ : Type) where
  draw : Int64 → σ → Except Error Int64 × σ

/-- A computation over a source's states. The state after a failure is kept. -/
abbrev Play (σ : Type) : Type → Type :=
  ExceptT Error (StateM σ)

namespace Play

variable {σ α : Type}

/-- A computation that draws nothing. -/
def ofExcept (result : Except Error α) : Play σ α :=
  fun state => (result, state)

/-- The answers of a computation that is made `n` times in a row. -/
def times (n : Nat) (play : Play σ α) : Play σ (List α) :=
  match n with
  | 0 => pure []
  | n + 1 => do
    let first ← play
    let others ← times n play
    return first :: others

@[simp] theorem ofExcept_ok (a : α) : (ofExcept (.ok a) : Play σ α) = pure a :=
  rfl

theorem bind_apply {β : Type} (play : Play σ α) (next : α → Play σ β) (state : σ) :
    (play >>= next) state =
      match play state with
      | (.ok a, after) => next a after
      | (.error e, after) => (.error e, after) := by
  change ExceptT.bindCont next (play state).1 (play state).2 = _
  rcases play state with ⟨_ | _, _⟩ <;> rfl

end Play

/-- One request to a source and what it answered. -/
structure Draw where
  sides : Int64
  answer : Except Error Int64

namespace Source

variable {σ : Type}

/-- Draws one face. -/
def face (source : Source σ) (sides : Int64) : Play σ Int64 :=
  fun state => source.draw sides state

/-- Answers as `source` does and keeps the draws made so far, the latest first. -/
def recorded (source : Source σ) : Source (σ × List Draw) where
  draw sides := fun (state, record) =>
    let (answer, next) := source.draw sides state
    (answer, (next, ⟨sides, answer⟩ :: record))

end Source

end DiceNotation
