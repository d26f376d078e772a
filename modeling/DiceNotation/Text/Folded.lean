/-!
# Words in any case

A text starts with a word up to case if its first characters, each folded to one case, are the word.
-/

namespace DiceNotation

def startsFolded (fold : Char → Char) (word text : List Char) : Bool :=
  (text.take word.length).map fold == word

theorem startsFolded_iff {fold : Char → Char} {word text : List Char} :
    startsFolded fold word text = true ↔ word <+: text.map fold := by
  rw [startsFolded, beq_iff_eq, List.map_take, eq_comm, List.prefix_iff_eq_take]

end DiceNotation
