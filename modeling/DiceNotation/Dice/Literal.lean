import DiceNotation.Dice.Basic
import DiceNotation.Text.Quoted

/-!
# Dice literals

The text of a group of dice: an optional count, `d`, the faces (digits, `%` for a hundred, or a
tag), an optional `!`, and an optional selection (`k` or `d`, an optional `h` or `l`, digits).
Letters are read in any ASCII case. The reader cuts at the first `d` and names the first part that
it cannot read: count, faces, selection.
-/

namespace DiceNotation

inductive LiteralError where
  | noDelimiter
  | count (text : String)
  | sides (text : String)
  | selection (text : String)
deriving DecidableEq

def LiteralError.message : LiteralError → String
  | noDelimiter => "cannot parse string as dice without 'd' delimiter"
  | count text => "invalid dice count " ++ Quoted.ofString text
  | sides text => "invalid dice sides " ++ Quoted.ofString text
  | selection text => "invalid keep/drop suffix " ++ Quoted.ofString text

/-- Both cases of the letter between count and faces. -/
def isDelimiter (c : Char) : Bool :=
  c == 'd' || c == 'D'

/-- A group of dice together with the text it was written as. -/
structure Literal where
  text : String
  dice : Dice
deriving DecidableEq

namespace Literal

/-- A missing count is one. -/
def readCount (text : List Char) : Except LiteralError Quantity :=
  if text.isEmpty then .ok .one
  else
    match Numeral.read? text with
    | none => .error (.count (String.ofList text))
    | some n =>
      match Quantity.saturate? n with
      | none => .error (.count "0")
      | some count => .ok count

/-- The faces part at the start of a text, and what follows it. An unknown tag runs to the next
`!` or to the end. -/
def splitSides : List Char → List Char × List Char
  | [] => ([], [])
  | c :: rest =>
    if c = '%' then ([c], rest)
    else if c.isDigit then (c :: rest).span Char.isDigit
    else
      match DiceKind.ofStart? (c :: rest) with
      | some kind => (c :: rest).splitAt kind.tag.length
      | none => (c :: rest).span (· != '!')

def readSides (text : List Char) : Except LiteralError (DiceKind × Quantity) :=
  if text = ['%'] then .ok (.standard, ⟨100, by decide, by decide⟩)
  else
    match Numeral.read? text with
    | some n =>
      match Quantity.saturate? n with
      | none => .error (.sides "0")
      | some sides => .ok (.standard, sides)
    | none =>
      match DiceKind.ofTag? text with
      | none => .error (.sides (String.ofList text))
      | some kind =>
        match kind.fixedSides? with
        | none => .error (.sides (String.ofList text))
        | some sides => .ok (kind, sides)

def readMode? (c : Char) : Option Selection.Mode :=
  match c.toLower with
  | 'k' => some .keep
  | 'd' => some .drop
  | _ => none

def readDirection? (c : Char) : Option Selection.Direction :=
  match c.toLower with
  | 'h' => some .high
  | 'l' => some .low
  | _ => none

/-- The direction at the start of a text, if there is one, and what follows it. -/
def splitDirection : List Char → Option Selection.Direction × List Char
  | [] => (none, [])
  | c :: rest =>
    match readDirection? c with
    | none => (none, c :: rest)
    | some direction => (some direction, rest)

def readSelection? : List Char → Option Selection
  | [] => none
  | c :: rest => do
    let mode ← readMode? c
    let (direction?, digits) := splitDirection rest
    let n ← Numeral.read? digits
    let amount ← Quantity.saturate? n
    return .of mode direction? amount

/-- Whether a text starts with `!`, and what follows it. -/
def splitBang : List Char → Bool × List Char
  | [] => (false, [])
  | c :: rest => if c = '!' then (true, rest) else (false, c :: rest)

/-- A text after the faces and the `!` is empty or a selection. -/
def readSuffix (text : List Char) : Except LiteralError (Option Selection) :=
  if text.isEmpty then .ok none
  else
    match readSelection? text with
    | none => .error (.selection (String.ofList text))
    | some selection => .ok (some selection)

def readDice (text : List Char) : Except LiteralError Dice :=
  match text.span (!isDelimiter ·) with
  | (_, []) => .error .noDelimiter
  | (front, _ :: rest) => do
    let count ← readCount front
    let (sidesText, suffix) := splitSides rest
    let (kind, sides) ← readSides sidesText
    let (explode, suffix) := splitBang suffix
    let selection? ← readSuffix suffix
    return { count, sides, kind, explode, selection? }

def read (text : String) : Except LiteralError Literal :=
  (readDice text.toList).map (⟨text, ·⟩)

end Literal

end DiceNotation
