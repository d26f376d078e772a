import DiceNotation.Main
import DiceNotation.Source.Scripted
import DiceNotation.Source.Words
import DiceNotation.Proofs.Precedence
import DiceNotation.Proofs.Atomicity
import DiceNotation.Proofs.LiteralAgreement
import DiceNotation.Proofs.Compound
import DiceNotation.Proofs.WiderLimits
import DiceNotation.Proofs.RequestedSides
import DiceNotation.Proofs.WrittenNumbers
import DiceNotation.Proofs.Shorthand
import DiceNotation.Proofs.DrawBounds
import DiceNotation.Proofs.TokenTexts
import DiceNotation.Proofs.DroppedDraws
import DiceNotation.Proofs.RollText
import DiceNotation.Proofs.ConsoleRun
import DiceNotation.Proofs.Explosions
import DiceNotation.Proofs.BonusDice
import DiceNotation.Proofs.RuleOverlap
import DiceNotation.Proofs.Modifiers
import DiceNotation.Proofs.Balance
import DiceNotation.Proofs.LiteralSpelling
import DiceNotation.Proofs.LiteralGrammar
import DiceNotation.Proofs.Replacement
import DiceNotation.Proofs.PointwiseExpansion
import DiceNotation.Proofs.Answers
import DiceNotation.Proofs.GroupTotals
import DiceNotation.Proofs.SignificantPart
import DiceNotation.Proofs.Separation
import DiceNotation.Proofs.RuleOrder
import DiceNotation.Proofs.LetterCase
import DiceNotation.Proofs.LetterCaseRolls
import DiceNotation.Proofs.FairDraws
