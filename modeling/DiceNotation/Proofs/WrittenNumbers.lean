import DiceNotation.Proofs.Layout
import DiceNotation.Proofs.LiteralAgreement
import DiceNotation.Proofs.Reading

/-!
# Written numbers

The numbers in a text and the numbers that are rolled. A number that is too large for its type is
read as the largest value of the type, and only then is it held to a ceiling. A ceiling below that
value refuses all such numbers. A ceiling that is not below it lets them through altered.
-/

namespace DiceNotation

/-! ## Numbers -/

namespace Numeral

variable {digits : List Char} {n value largest ceiling : Nat}

/-- The digits are read as `value`: as what they say, or as the largest value of the type if the
ceiling has room for it. -/
def Gives (digits : List Char) (value largest ceiling : Nat) : Prop :=
  read? digits = some value ∨ value = largest ∧ largest ≤ ceiling

/-- Under a ceiling below the largest value nothing is altered. -/
theorem Gives.read?_of_lt (h : Gives digits value largest ceiling) (hlt : ceiling < largest) :
    read? digits = some value := by
  rcases h with hread | ⟨-, hle⟩
  · exact hread
  · exact absurd hle (Nat.not_le.mpr hlt)

/-- A value that is cut off at the largest one and passes the ceiling. -/
theorem gives_of_min (hread : read? digits = some n) (hvalue : value = min n largest)
    (hceiling : value ≤ ceiling) : Gives digits value largest ceiling := by
  by_cases hn : n ≤ largest
  · left
    rw [hread, hvalue, Nat.min_eq_left hn]
  · right
    have hlargest : value = largest := by
      rw [hvalue, Nat.min_eq_right (Nat.le_of_not_le hn)]
    exact ⟨hlargest, hlargest ▸ hceiling⟩

end Numeral

namespace Dice

variable {limits : Limits} {dice : Dice} {text : List Char}

/-- What the text in front of the delimiter says of the group. -/
def CountFrom (limits : Limits) (dice : Dice) (text : List Char) : Prop :=
  text = [] ∧ dice.count = .one ∨
    Numeral.Gives text dice.count.val Quantity.largest limits.dice

/-- What the text behind the delimiter says of the group: `%` for a hundred faces, a number, or the
tag of a kind with fixed faces. -/
def SidesFrom (limits : Limits) (dice : Dice) (text : List Char) : Prop :=
  dice.kind = .standard ∧ text = ['%'] ∧ dice.sides.val = 100 ∨
    dice.kind = .standard ∧ Numeral.Gives text dice.sides.val Quantity.largest limits.sides ∨
    dice.kind ∈ DiceKind.tagged ∧ text.map Char.toLower = dice.kind.foldedTag ∧
      dice.kind.fixedSides? = some dice.sides

theorem countFrom_of_readCount (hread : Literal.readCount text = .ok dice.count)
    (hceiling : dice.count.val ≤ limits.dice) : dice.CountFrom limits text := by
  rcases Literal.readCount_cases hread with ⟨hnil, hone⟩ | ⟨n, hn, hsaturate⟩
  · exact .inl ⟨hnil, hone⟩
  · exact .inr (Numeral.gives_of_min hn (Quantity.val_of_saturate? hsaturate) hceiling)

theorem sidesFrom_of_readSides (hread : Literal.readSides text = .ok (dice.kind, dice.sides))
    (hceiling : dice.kind = .standard → dice.sides.val ≤ limits.sides) :
    dice.SidesFrom limits text := by
  rcases Literal.readSides_cases hread with hpercent | ⟨hkind, n, hn, hsaturate⟩ | htag
  · exact .inl hpercent
  · have hgives := Numeral.gives_of_min hn (Quantity.val_of_saturate? hsaturate) (hceiling hkind)
    exact .inr (.inl ⟨hkind, hgives⟩)
  · exact .inr (.inr htag)

end Dice

/-! ## Tokens -/

/-- What a word has to do with the token it stands for. -/
inductive Token.Denotes (limits : Limits) : List Char → Token → Prop
  | number {word : List Char} {value : Int64} (hnonneg : 0 ≤ value.toInt)
      (hvalue : Numeral.Gives word value.toInt.natAbs Lexeme.largestConstant
        limits.constant.toInt.natAbs) :
      Denotes limits word (.number value)
  | dice {parts : Lexeme.DiceParts} {dice : Dice} (hparts : parts.WellFormed)
      (hcount : dice.CountFrom limits parts.count) (hsides : dice.SidesFrom limits parts.sides) :
      Denotes limits parts.text (.dice ⟨String.ofList parts.text, dice⟩)
  | operator (op : Operator) : Denotes limits [op.toChar] (.operator op)
  | leftParen : Denotes limits ['('] .leftParen
  | rightParen : Denotes limits [')'] .rightParen

namespace Lexeme

open Token

variable {table : Table} {kind : Kind} {word rest text stop : List Char}
  {words : List (List Char)} {tokens : List Token}

theorem toInt_constant_min (n : Nat) :
    (Int64.ofNat (min n largestConstant)).toInt = (min n largestConstant : Nat) := by
  apply Int64.toInt_ofNat_of_lt
  have hle : min n largestConstant ≤ 9223372036854775807 := Nat.min_le_right n largestConstant
  omega

/-- A dice literal that the table has room for has the numbers that are written. -/
theorem denotes_dice {group : Dice} (hmatched : Kind.Matches .dice word)
    (hread : Literal.readDice word = .ok group)
    (hadmits : table.Admits (.dice ⟨String.ofList word, group⟩)) :
    Denotes table.limits word (.dice ⟨String.ofList word, group⟩) := by
  obtain ⟨parts, hparts, rfl⟩ := DiceParts.mem_dice_iff.mp hmatched
  obtain ⟨hcount, hsides⟩ := Literal.read_parts hparts hread
  obtain ⟨rule, -, hhandles, hdice, hceiling⟩ := hadmits
  have hstandard : group.kind = .standard → group.sides.val ≤ table.limits.sides := by
    intro hkind
    rw [hkind] at hhandles
    exact hceiling (.inl (Rule.handles_unique hhandles rfl))
  apply Denotes.dice hparts
  · exact Dice.countFrom_of_readCount hcount hdice
  · exact Dice.sidesFrom_of_readSides hsides hstandard

theorem StandsFor.denotes {token : Token} (h : StandsFor kind word rest (some token))
    (hmatched : kind.Matches word) (hadmits : table.Admits token) :
    Denotes table.limits word token := by
  cases h with
  | number =>
      have hread := Numeral.read?_eq_some_iff.mpr ⟨hmatched, rfl⟩
      have hvalue := toInt_constant_min (Nat.ofDigitChars 10 word 0)
      apply Denotes.number
      · show 0 ≤ (Int64.ofNat (min _ largestConstant)).toInt
        rw [hvalue]
        exact Int.natCast_nonneg _
      · apply Numeral.gives_of_min hread _ hadmits
        show (Int64.ofNat (min _ largestConstant)).toInt.natAbs = _
        rw [hvalue, Int.natAbs_natCast]
  | operator op =>
      obtain rfl := Pattern.mem_char.mp hmatched
      exact .operator op
  | leftParen =>
      obtain rfl := Pattern.mem_char.mp hmatched
      exact .leftParen
  | rightParen =>
      obtain rfl := Pattern.mem_char.mp hmatched
      exact .rightParen
  | dice _ hread => exact denotes_dice hmatched hread hadmits
  | brokenDice =>
      -- no numeral, but the largest constant: the ceiling has let that through
      have hlargest : (9223372036854775807 : Int64).toInt.natAbs = largestConstant := by decide
      apply Denotes.number (by decide)
      right
      exact ⟨hlargest, hlargest ▸ hadmits⟩

/-- Only blanks consist of separators. -/
theorem IsLongest.eq_blank_iff (h : IsLongest text kind word) :
    word.all isSeparator = true ↔ kind = .blank := by
  constructor
  · intro hall
    obtain ⟨c, tail, rfl⟩ := List.exists_cons_of_ne_nil h.ne_nil
    obtain ⟨hc, htail⟩ := List.forall_mem_cons.mp (List.all_eq_true.mp hall)
    have hblank : Kind.Matches .blank (c :: tail) := mem_blanks_iff.mpr ⟨c, tail, rfl, hc, htail⟩
    exact kind_unique h.ne_nil h.matched hblank
  · rintro rfl
    exact List.all_eq_true.mpr (isSeparator_of_matches_blank h.matched)

theorem StandsFor.eq_none_iff {token? : Option Token} (h : StandsFor kind word rest token?) :
    token? = none ↔ kind = .blank := by
  cases h <;> simp

/-- The words of a text that are no blanks denote its tokens, one by one. -/
theorem Lexes.forall₂_denotes (h : Lexes text words tokens stop)
    (hadmits : ∀ t ∈ tokens, table.Admits t) :
    List.Forall₂ (Denotes table.limits) (words.filter (!·.all isSeparator)) tokens := by
  induction h with
  | stop text => exact .nil
  | @next kind word rest stop token? words tokens hlongest hstands hrest ih =>
      obtain ⟨hfirst, hothers⟩ := List.forall_mem_append.mp hadmits
      cases token? with
      | none =>
          have hblank := hlongest.eq_blank_iff.mpr (hstands.eq_none_iff.mp rfl)
          simpa [hblank] using ih hothers
      | some token =>
          have hword : word.all isSeparator = false := by
            by_contra hall
            have hkind := hlongest.eq_blank_iff.mp (by simpa using hall)
            cases hstands.eq_none_iff.mpr hkind
          have htoken : Denotes table.limits word token :=
            hstands.denotes hlongest.matched (hfirst token (Option.mem_toList.mpr rfl))
          rw [List.filter_cons_of_pos (by simp [hword])]
          exact .cons htoken (ih hothers)

end Lexeme

/-! ## Rolls -/

theorem Table.Admits.of_not_isOperand {table : Table} {token : Token}
    (h : token.isOperand = false) : table.Admits token := by
  cases token with
  | number value => cases h
  | dice literal => cases h
  | operator op => trivial
  | leftParen => trivial
  | rightParen => trivial

namespace Table

open Lexeme Token

/-- **The numbers of a text are the numbers that are rolled.** In a text that is rolled, each word
that is no blank denotes a token, and one complete throw for each group of dice is all that is
drawn. A number is altered only to the largest value of its type, and only under a ceiling that is
not below this value. A literal that breaks off counts as the largest constant, so it is rolled
under such a ceiling only. -/
theorem numbers_of_roll {table : Table} {σ : Type} {source : Source σ} {s s' : σ} {input : String}
    {roll : Roll} (h : table.roll source input s = (.ok roll, s')) (record : List Draw) :
    ∃ words tokens, ∃ throws : List Throw,
      Lexes (Formula.significant table.limits input.toList) words tokens [] ∧
      List.Forall₂ (Denotes table.limits) (words.filter (!·.all isSeparator)) tokens ∧
      throws.map Throw.literal = tokens.filterMap Token.literal? ∧
      (∀ t ∈ throws, table.rulebook.ruleFor t.literal = .ok t.rule ∧ t.Complete table.limits) ∧
      table.roll source.recorded input (s, record) =
        (.ok roll, s', (throws.flatMap Throw.calls).reverse ++ record) := by
  obtain ⟨formula, hread, hevaluate⟩ := exists_formula_of_roll h
  obtain ⟨tokens, hreadAs⟩ := Formula.read_eq_ok_iff.mp hread
  obtain ⟨words, hlexes⟩ := hreadAs.exists_lexes
  obtain ⟨e, throws, raw, htokens, hsettles, -, hrun⟩ := exists_settles_of_evaluate hevaluate record
  have haccounts := hsettles.accounts
  obtain ⟨-, hall⟩ := check_eq_ok_iff.mp (check_of_evaluate hevaluate)
  have hadmits : ∀ t ∈ tokens, table.Admits t := by
    intro t ht
    cases hoperand : t.isOperand with
    | false => exact .of_not_isOperand hoperand
    | true => exact hall t ((hreadAs.mem_iff_of_isOperand hoperand).mpr ht)
  refine ⟨words, tokens, throws, hlexes, hlexes.forall₂_denotes hadmits, ?_, ?_, ?_⟩
  · rw [haccounts.literals, htokens, PostOrder.literals_of_ofInfix hreadAs.order]
  · intro t ht
    exact ⟨haccounts.rules t ht, hsettles.complete t ht⟩
  · rw [roll_of_read hread]
    exact hrun

/-- `2d6 + 3` where the source answers 5 and 2. The ceiling on constants is below the largest one, so
the constant is what is written. -/
theorem numbers_of_roll_sum :
    ∃ words tokens, Lexes "2d6 + 3".toList words tokens [] ∧
      ∀ word value, (word, .number value) ∈ (words.filter (!·.all isSeparator)).zip tokens →
        Numeral.read? word = some value.toInt.natAbs := by
  have hread : Formula.read (Table.mk .full {}).limits "2d6 + 3" =
      .ok ⟨[.dice ⟨"2d6", .plain ⟨2, by decide, by decide⟩ ⟨6, by decide, by decide⟩ .standard⟩,
        .number 3, .operator .add], "2d6 + 3"⟩ := by
    decide +kernel
  have hroll : roll {} (Script.source []) "2d6 + 3" ⟨[5, 2], .error⟩ =
      (.ok ⟨10, [5, 2], [], 3, "2d6 + 3", []⟩, ⟨[], .error⟩) := by
    rw [roll_of_read hread]
    rfl
  obtain ⟨words, tokens, throws, hlexes, hdenotes, -⟩ := numbers_of_roll hroll []
  refine ⟨words, tokens, hlexes, ?_⟩
  intro word value hmem
  have hword : Denotes {} word (.number value) := (List.forall₂_iff_zip.mp hdenotes).2 hmem
  cases hword with
  | number hnonneg hvalue => exact hvalue.read?_of_lt (by decide)

/-- A constant of `2 ^ 63` is rolled as `2 ^ 63 - 1` under the largest ceiling. -/
theorem exists_altered_constant :
    ¬ ∀ (limits : Limits) (input : String) (script script' : Script) (total : Roll) (n : Nat),
      roll ⟨.full, limits⟩ (Script.source []) input script = (.ok total, script') →
        Numeral.read? input.toList = some n → total.total.toInt = n := by
  intro hall
  have hread : Formula.read (Table.mk .full { constant := 9223372036854775807 }).limits
      "9223372036854775808" =
      .ok ⟨[.number 9223372036854775807], "9223372036854775808"⟩ := by
    decide +kernel
  have htotal := hall { constant := 9223372036854775807 } "9223372036854775808" ⟨[], .error⟩
    ⟨[], .error⟩ ⟨9223372036854775807, [], [], 9223372036854775807, "9223372036854775808", []⟩
    9223372036854775808
    (by
      rw [roll_of_read hread]
      rfl)
    (by decide +kernel)
  exact absurd htotal (by decide)

end Table

end DiceNotation
