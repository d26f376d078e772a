import DiceNotation.Proofs.ScanAppend
import DiceNotation.Proofs.WrittenNumbers

/-!
# The texts of tokens

Tokens are written with a space between neighbours. No lexeme goes over a space, so a written list
of tokens is scanned token by token, each as if it stood alone. What is left is to tell which tokens
come back from their own text: all that scanning makes do, since a number is made from digits and a
literal keeps the very word that it was read from.
-/

namespace DiceNotation

/-! ## Numbers -/

namespace Numeral

theorem ofInt64_of_nonneg {value : Int64} (h : 0 ≤ value.toInt) :
    ofInt64 value = ofNat value.toInt.natAbs := by
  unfold ofInt64
  cases hvalue : value.toInt with
  | ofNat n => rfl
  | negSucc n =>
      rw [hvalue] at h
      exact absurd h (by omega)

/-- A constant is not cut off at the largest one. -/
theorem ofNat_min_natAbs {value : Int64} (h : 0 ≤ value.toInt) :
    Int64.ofNat (min value.toInt.natAbs Lexeme.largestConstant) = value := by
  apply Int64.toInt_inj.mp
  rw [Lexeme.toInt_constant_min]
  have hlt := value.toInt_lt
  have hle : value.toInt.natAbs ≤ Lexeme.largestConstant := by
    unfold Lexeme.largestConstant
    omega
  rw [Nat.min_eq_left hle]
  exact Int.natAbs_of_nonneg h

end Numeral

/-! ## One token -/

namespace Lexeme

/-- A word that is all of the text is the longest match. -/
theorem Lexes.whole {kind : Kind} {word : List Char} {token : Token} (hne : word ≠ [])
    (hmatched : kind.Matches word) (hstands : StandsFor kind word [] (some token)) :
    Lexes word [word] [token] [] := by
  have hlongest : IsLongest (word ++ []) kind word := by
    rw [List.append_nil]
    exact ⟨hne, List.prefix_rfl, hmatched, fun _ _ hw _ => hw.length_le⟩
  have hlexes := Lexes.next hlongest hstands (.stop [])
  rw [List.append_nil] at hlexes
  exact hlexes

end Lexeme

namespace Token

open Lexeme

/-- The token comes back from its own text: a number without a sign, or a literal that is scanned
whole. -/
def Scannable : Token → Prop
  | number value => 0 ≤ value.toInt
  | dice literal => scan literal.text = .ok [dice literal]
  | operator _ | leftParen | rightParen => True

variable {token : Token} {tokens : List Token}

theorem lexes_number {value : Int64} (h : 0 ≤ value.toInt) :
    Lexes (Numeral.ofInt64 value) [Numeral.ofInt64 value] [.number value] [] := by
  obtain ⟨hnumber, hdigits⟩ :=
    Numeral.read?_eq_some_iff.mp (Numeral.read?_ofNat value.toInt.natAbs)
  have hstands := StandsFor.number (Numeral.ofNat value.toInt.natAbs) []
  rw [hdigits] at hstands
  have hvalue := Numeral.ofNat_min_natAbs h
  unfold largestConstant at hvalue
  rw [hvalue] at hstands
  rw [Numeral.ofInt64_of_nonneg h]
  have hmatched : Kind.Matches .number (Numeral.ofNat value.toInt.natAbs) := hnumber
  exact .whole (Pattern.mem_number.mp hnumber).1 hmatched hstands

theorem Scannable.exists_lexes (h : token.Scannable) :
    ∃ words, Lexes token.render.toList words [token] [] := by
  cases token with
  | number value =>
      rw [render, String.toList_ofList]
      exact ⟨_, lexes_number h⟩
  | dice literal => exact scanFrom_eq_ok_iff.mp h
  | operator op =>
      rw [render, String.toList_singleton]
      exact ⟨_, .operator op (.stop [])⟩
  | leftParen => exact ⟨_, .leftParen (.stop [])⟩
  | rightParen => exact ⟨_, .rightParen (.stop [])⟩

/-- What scanning makes comes back from its text. -/
theorem scannable_of_standsFor {kind : Kind} {word rest : List Char}
    (h : StandsFor kind word rest (some token)) (hmatched : kind.Matches word) :
    token.Scannable := by
  cases h with
  | number =>
      show 0 ≤ (Int64.ofNat (min _ largestConstant)).toInt
      rw [toInt_constant_min]
      exact Int.natCast_nonneg _
  | operator op => trivial
  | leftParen => trivial
  | rightParen => trivial
  | dice _ hread =>
      -- alone, the word does not break off: nothing stands behind it
      show scan (String.ofList word) = .ok [.dice ⟨String.ofList word, _⟩]
      rw [scan_eq_dice_iff, String.toList_ofList]
      exact ⟨hread, hmatched⟩
  | brokenDice =>
      show 0 ≤ (9223372036854775807 : Int64).toInt
      decide

theorem scannable_of_lexes {text stop : List Char} {words : List (List Char)}
    (h : Lexes text words tokens stop) : ∀ t ∈ tokens, t.Scannable := by
  induction h with
  | stop text => simp
  | next hlongest hstands hrest ih =>
      refine List.forall_mem_append.mpr ⟨?_, ih⟩
      intro t ht
      rw [Option.mem_toList.mp ht] at hstands
      exact scannable_of_standsFor hstands hlongest.matched

/-! ## Lists of tokens -/

theorem exists_lexes_renderAll (h : ∀ t ∈ tokens, t.Scannable) :
    ∃ words, Lexes (renderAll tokens).toList words tokens [] := by
  induction tokens with
  | nil => exact ⟨[], .stop []⟩
  | cons token tokens ih =>
      obtain ⟨htoken, htokens⟩ := List.forall_mem_cons.mp h
      obtain ⟨words, hfirst⟩ := htoken.exists_lexes
      cases tokens with
      | nil =>
          have htext : renderAll [token] = token.render := String.intercalate_singleton
          rw [htext]
          exact ⟨words, hfirst⟩
      | cons next others =>
          have htext : (renderAll (token :: next :: others)).toList =
              token.render.toList ++ ' ' :: (renderAll (next :: others)).toList := by
            simp [renderAll]
          obtain ⟨words', hothers⟩ := ih htokens
          obtain ⟨words'', hspace⟩ :=
            hothers.blanks (.inl rfl) (List.forall_mem_singleton.mpr (rfl : isSeparator ' ' = true))
          obtain ⟨_, hboth⟩ := hfirst.separated rfl hspace (.inl rfl)
          rw [htext]
          exact ⟨_, hboth⟩

theorem scannable_of_scan {text : String} (h : scan text = .ok tokens) :
    ∀ t ∈ tokens, t.Scannable := by
  obtain ⟨words, hlexes⟩ := scanFrom_eq_ok_iff.mp h
  exact scannable_of_lexes hlexes

theorem scan_renderAll_of_scannable (h : ∀ t ∈ tokens, t.Scannable) :
    scan (renderAll tokens) = .ok tokens :=
  scanFrom_eq_ok_iff.mpr (exists_lexes_renderAll h)

/-- Ordering leaves out the parentheses and moves the rest, so it makes no new tokens. -/
theorem scannable_of_read {limits : Limits} {input : String} {formula : Formula}
    (h : Formula.read limits input = .ok formula) : ∀ t ∈ formula.tokens, t.Scannable := by
  obtain ⟨tokens, hreadAs⟩ := Formula.read_eq_ok_iff.mp h
  intro t ht
  cases hoperand : t.isOperand with
  | true =>
      exact scannable_of_scan hreadAs.scan t ((hreadAs.mem_iff_of_isOperand hoperand).mp ht)
  | false =>
      cases t with
      | number value => cases hoperand
      | dice literal => cases hoperand
      | operator op => trivial
      | leftParen => trivial
      | rightParen => trivial

/-- **Written tokens are scanned back.** A list of tokens comes back from its texts, written with a
space between neighbours, exactly if it has no number below zero and each literal in it comes back
from its own text. So do the tokens of every text that is scanned, whatever it says (zeros in front
of a number, a number that is cut off at the largest constant, a literal that breaks off), and so do
the tokens of every formula. -/
theorem scan_renderAll :
    (∀ tokens : List Token, scan (renderAll tokens) = .ok tokens ↔ ∀ t ∈ tokens, t.Scannable) ∧
    (∀ text tokens, scan text = .ok tokens → scan (renderAll tokens) = .ok tokens) ∧
    ∀ limits input formula, Formula.read limits input = .ok formula →
      scan (renderAll formula.tokens) = .ok formula.tokens := by
  refine ⟨fun tokens => ⟨scannable_of_scan, scan_renderAll_of_scannable⟩, ?_, ?_⟩
  · intro text tokens h
    exact scan_renderAll_of_scannable (scannable_of_scan h)
  · intro limits input formula h
    exact scan_renderAll_of_scannable (scannable_of_read h)

/-- The counted literal in `2dFdF` breaks off and counts as the largest constant, and `01d6` is a
number and a literal. -/
theorem scan_renderAll_brokenDice :
    scan "9223372036854775807 dF" = .ok [.number 9223372036854775807,
      .dice ⟨"dF", .plain .one ⟨3, by decide, by decide⟩ .fudge⟩] ∧
    scan "1 d6" = .ok [.number 1,
      .dice ⟨"d6", .plain .one ⟨6, by decide, by decide⟩ .standard⟩] := by
  obtain ⟨-, hscan, -⟩ := scan_renderAll
  have hbroken : scan "2dFdF" = .ok [.number 9223372036854775807,
      .dice ⟨"dF", .plain .one ⟨3, by decide, by decide⟩ .fudge⟩] := by
    decide +kernel
  have hpadded : scan "01d6" = .ok [.number 1,
      .dice ⟨"d6", .plain .one ⟨6, by decide, by decide⟩ .standard⟩] := by
    decide +kernel
  exact ⟨hscan _ _ hbroken, hscan _ _ hpadded⟩

end Token

end DiceNotation
