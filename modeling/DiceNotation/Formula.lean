import DiceNotation.Limits
import DiceNotation.PostOrder
import DiceNotation.Text.Blank
import DiceNotation.Token.Scan

/-!
# Formulas

A formula is what an expression text says: its tokens in post-order, and the text itself without
blanks at its ends and cut to the length limit.
-/

namespace DiceNotation

structure Formula where
  tokens : List Token
  text : String
deriving DecidableEq

namespace Formula

/-- The part of a text that is read. The cut may leave blanks at its end, which go too. -/
def significant (limits : Limits) (text : List Char) : List Char :=
  trimEnd ((trim text).take limits.inputLength)

def read (limits : Limits) (input : String) : Except Error Formula :=
  if (trim input.toList).isEmpty then .error .blankInput
  else do
    let text := String.ofList (significant limits input.toList)
    let tokens ← Token.scan text
    let ordered ← PostOrder.ofInfix tokens
    return { tokens := ordered, text }

end Formula

end DiceNotation
