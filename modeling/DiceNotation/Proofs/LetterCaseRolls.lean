import DiceNotation.Proofs.Evaluation
import DiceNotation.Proofs.LetterCase
import DiceNotation.Proofs.Reading

/-!
# Rolling a text in any case

A roll keeps the text of a group in its label, and the error for a group without a rule quotes it;
nothing else is made of that text. So a formula in lower case is refused where the formula is, and
is run as the formula is. Two texts that differ in the case of their letters are read as formulas
that are the same in lower case.
-/

namespace DiceNotation

/-! ## Outcomes -/

namespace Outcome

variable {α β : Type} {fold : α → α} {fold' : β → β}

theorem inLowerCase_bind {first : Except Error α} {next next' : α → Except Error β}
    (h : ∀ a, next' (fold a) = inLowerCase fold' (next a)) :
    inLowerCase fold first >>= next' = inLowerCase fold' (first >>= next) := by
  cases first with
  | error e => rfl
  | ok a => exact h a

/-- Outcomes that are the same in lower case are both values or both errors. -/
theorem inLowerCase_eq_iff {first second : Except Error α} :
    inLowerCase fold first = inLowerCase fold second ↔
      (∃ a b, first = .ok a ∧ second = .ok b ∧ fold a = fold b) ∨
      ∃ e e', first = .error e ∧ second = .error e' ∧ e.inLowerCase = e'.inLowerCase := by
  cases first <;> cases second <;> simp [inLowerCase]

end Outcome

/-- The computation with its outcome in lower case. -/
def Play.inLowerCase {σ α : Type} (fold : α → α) (play : Play σ α) : Play σ α :=
  fun state => (Outcome.inLowerCase fold (play state).1, (play state).2)

/-- An error of the source is the same in both computations, so it may be left as it is. -/
theorem Play.inLowerCase_congr {σ α : Type} {fold : α → α} {first second : Play σ α}
    (h : fold <$> first = fold <$> second) : inLowerCase fold first = inLowerCase fold second := by
  have hfold : ∀ play : Play σ α, inLowerCase fold play = inLowerCase id (fold <$> play) := by
    intro play
    funext state
    rw [← bind_pure_comp, inLowerCase, inLowerCase, bind_apply]
    rcases play state with ⟨_ | _, _⟩ <;> rfl
  rw [hfold, hfold, h]

/-- Both computations are refused before they draw anything. -/
theorem Play.inLowerCase_of_error {σ α : Type} {fold : α → α} {first second : Play σ α}
    {e e' : Error} (hfirst : ∀ state, first state = (.error e, state))
    (hsecond : ∀ state, second state = (.error e', state)) (he : e.inLowerCase = e'.inLowerCase) :
    inLowerCase fold first = inLowerCase fold second := by
  funext state
  rw [inLowerCase, inLowerCase, hfirst, hsecond]
  simp only [Outcome.inLowerCase, he]

theorem Play.ofExcept_map {σ α β : Type} (f : α → β) (result : Except Error α) :
    (ofExcept (result.map f) : Play σ β) = f <$> ofExcept result := by
  cases result <;> rfl

/-! ## Reading -/

namespace PostOrder

theorem convert?_map_inLowerCase (stack : List Pending) (tokens : List Token) :
    convert? stack (tokens.map Token.inLowerCase) =
      (convert? stack tokens).map (·.map Token.inLowerCase) := by
  have hoperators : ∀ ops : List Operator,
      (ops.map Token.operator).map Token.inLowerCase = ops.map Token.operator := by
    intro ops
    rw [List.map_map]
    rfl
  induction tokens generalizing stack with
  | nil => simp [convert?, Function.comp_def, hoperators]
  | cons token tokens ih =>
      cases token with
      | number value => simp [convert?, ih, Token.inLowerCase, Function.comp_def]
      | dice literal => simp [convert?, ih, Token.inLowerCase, Function.comp_def]
      | operator op => simp [convert?, ih, Token.inLowerCase, Function.comp_def, hoperators]
      | leftParen => simp [convert?, ih, Token.inLowerCase]
      | rightParen =>
          simp only [List.map_cons, Token.inLowerCase, convert?]
          cases close? stack with
          | none => rfl
          | some closed => simp [ih, Function.comp_def, hoperators]

theorem ofInfix_map_inLowerCase (tokens : List Token) :
    ofInfix (tokens.map Token.inLowerCase) =
      Outcome.inLowerCase (·.map Token.inLowerCase) (ofInfix tokens) := by
  rw [ofInfix, ofInfix, convert?_map_inLowerCase]
  cases convert? [] tokens <;> rfl

end PostOrder

namespace Formula

def inLowerCase (formula : Formula) : Formula where
  tokens := formula.tokens.map Token.inLowerCase
  text := formula.text.toLower

theorem significant_map_toLower (limits : Limits) (text : List Char) :
    significant limits (text.map Char.toLower) = (significant limits text).map Char.toLower := by
  rw [significant, significant, trim_map_toLower, ← List.map_take, trimEnd_map_toLower]

theorem ofPart_map_toLower (part : List Char) :
    ofPart (part.map Char.toLower) = Outcome.inLowerCase inLowerCase (ofPart part) := by
  simp only [ofPart, ← toLower_ofList, Token.scan_toLower]
  refine Outcome.inLowerCase_bind fun tokens => ?_
  rw [PostOrder.ofInfix_map_inLowerCase]
  exact Outcome.inLowerCase_bind fun ordered => rfl

/-- Reading a text in lower case gives what reading the text gives, in lower case. -/
theorem read_toLower (limits : Limits) (input : String) :
    read limits input.toLower = Outcome.inLowerCase inLowerCase (read limits input) := by
  have hinput : input.toLower.toList = input.toList.map Char.toLower := String.toList_map
  by_cases hblank : trim input.toList = []
  · have hblank' : trim input.toLower.toList = [] := by
      rw [hinput, trim_map_toLower, hblank, List.map_nil]
    rw [read_of_blank hblank, read_of_blank hblank']
    rfl
  · have hblank' : trim input.toLower.toList ≠ [] := by
      rwa [hinput, trim_map_toLower, ne_eq, List.map_eq_nil_iff]
    rw [read_of_nonblank hblank, read_of_nonblank hblank', hinput, significant_map_toLower,
      ofPart_map_toLower]

end Formula

/-! ## Checking -/

theorem Rulebook.ruleFor_toLower (rulebook : Rulebook) (literal : Literal) :
    rulebook.ruleFor { literal with text := literal.text.toLower } =
      Outcome.inLowerCase id (rulebook.ruleFor literal) := by
  rw [ruleFor, ruleFor]
  cases rulebook.rules.find? (·.handles literal.dice.kind) <;> rfl

theorem Rule.check_inLowerCase (rule : Rule) (limits : Limits) (dice : Dice) :
    Outcome.inLowerCase id (rule.check limits dice) = rule.check limits dice := by
  cases hcheck : rule.check limits dice with
  | ok _ => rfl
  | error e =>
      rcases check_eq_error_iff.mp hcheck with ⟨-, rfl⟩ | ⟨-, -, -, rfl⟩ <;> rfl

namespace Table

theorem checkToken_inLowerCase (table : Table) (depth : Nat) (token : Token) :
    table.checkToken depth token.inLowerCase =
      Outcome.inLowerCase id (table.checkToken depth token) := by
  cases token with
  | number value =>
      show table.checkToken depth (.number value) = _
      rw [checkToken]
      split <;> rfl
  | dice literal =>
      show (do
        let rule ← table.rulebook.ruleFor { literal with text := literal.text.toLower }
        rule.check table.limits literal.dice
        return depth + 1) = _
      rw [Rulebook.ruleFor_toLower]
      refine Outcome.inLowerCase_bind fun rule => ?_
      conv_lhs => rw [id, ← Rule.check_inLowerCase]
      exact Outcome.inLowerCase_bind fun _ => rfl
  | operator op =>
      show table.checkToken depth (.operator op) = _
      rw [checkToken]
      split <;> rfl
  | leftParen => rfl
  | rightParen => rfl

theorem checkFrom_map_inLowerCase (table : Table) (depth : Nat) (tokens : List Token) :
    table.checkFrom depth (tokens.map Token.inLowerCase) =
      Outcome.inLowerCase id (table.checkFrom depth tokens) := by
  induction tokens generalizing depth with
  | nil =>
      rw [List.map_nil, checkFrom]
      split <;> rfl
  | cons token tokens ih =>
      rw [List.map_cons, checkFrom, checkFrom, checkToken_inLowerCase]
      exact Outcome.inLowerCase_bind ih

theorem check_map_inLowerCase (table : Table) (tokens : List Token) :
    table.check (tokens.map Token.inLowerCase) = Outcome.inLowerCase id (table.check tokens) :=
  table.checkFrom_map_inLowerCase 0 tokens

end Table

/-! ## Running -/

namespace Roll

def inLowerCase (roll : Roll) : Roll :=
  { roll with label := roll.label.toLower }

/-- A numeral has no letters. -/
theorem inLowerCase_constant (value : Int64) : (constant value).inLowerCase = constant value := by
  have hdigits : ∀ n, (Numeral.ofNat n).map Char.toLower = Numeral.ofNat n := fun n =>
    map_toLower_of_digits (List.all_eq_true.mp (Numeral.all_isDigit_ofNat n))
  have hnumeral : (Numeral.ofInt64 value).map Char.toLower = Numeral.ofInt64 value := by
    rw [Numeral.ofInt64]
    cases value.toInt with
    | ofNat n => exact hdigits n
    | negSucc n => exact congrArg ('-' :: ·) (hdigits (n + 1))
  rw [inLowerCase, constant, toLower_ofList, hnumeral]

theorem toLower_label (op : Operator) (left right : String) :
    ("(" ++ left ++ " " ++ String.singleton op.toChar ++ " " ++ right ++ ")").toLower =
      "(" ++ left.toLower ++ " " ++ String.singleton op.toChar ++ " " ++ right.toLower ++ ")" := by
  have hop : op.toChar.toLower = op.toChar := by cases op <;> decide
  rw [← String.toList_inj]
  simp [String.toLower, hop]

theorem combine_inLowerCase (left : Roll) (op : Operator) (right : Roll) :
    left.inLowerCase.combine op right.inLowerCase = (left.combine op right).map inLowerCase := by
  unfold combine inLowerCase
  cases op.total left.total right.total with
  | error e => rfl
  | ok total =>
      cases op.modifier left.modifier right.modifier with
      | error e => rfl
      | ok modifier =>
          refine congrArg Except.ok ?_
          dsimp only
          rw [toLower_label]

end Roll

theorem Rule.roll_toLower (rule : Rule) (limits : Limits) {σ : Type} (source : Source σ)
    (literal : Literal) :
    rule.roll limits source { literal with text := literal.text.toLower } =
      Roll.inLowerCase <$> rule.roll limits source literal := by
  cases rule with
  | duality => simp [roll, rollDuality, Roll.inLowerCase]
  | fudge => simp [roll, rollFudge, Roll.inLowerCase, selected]
  | faction => simp [roll, rollFaction, Roll.inLowerCase]
  | standard => simp [roll, rollStandard, Roll.inLowerCase, selected]

namespace Table

variable {table : Table} {σ : Type} {token : Token} {tokens : List Token}

/-- One step on a stack in lower case leaves the stack that the step leaves, in lower case. The token
has passed the check, so no error of the step's own quotes it. -/
theorem step_inLowerCase (hadmits : table.Admits token) (source : Source σ) (stack : List Roll) :
    table.step source (stack.map Roll.inLowerCase) token.inLowerCase =
      (·.map Roll.inLowerCase) <$> table.step source stack token := by
  cases token with
  | number value =>
      show pure (Roll.constant value :: stack.map Roll.inLowerCase) = _
      rw [step, map_pure, List.map_cons, Roll.inLowerCase_constant]
  | dice literal =>
      obtain ⟨rule, hrule⟩ := exists_ruleFor_of_admits hadmits
      have hrule' := table.rulebook.ruleFor_toLower literal
      rw [hrule] at hrule'
      simp [Token.inLowerCase, step, hrule, hrule', Outcome.inLowerCase, Rule.roll_toLower]
  | operator op =>
      rcases stack with _ | ⟨right, _ | ⟨left, rest⟩⟩
      · rfl
      · rfl
      · show (do
          let roll ← Play.ofExcept (left.inLowerCase.combine op right.inLowerCase)
          return roll :: rest.map Roll.inLowerCase) = _
        rw [Roll.combine_inLowerCase, Play.ofExcept_map]
        simp [step]
  | leftParen => rfl
  | rightParen => rfl

theorem run_map_inLowerCase (hadmits : ∀ token ∈ tokens, table.Admits token) (source : Source σ)
    (stack : List Roll) :
    table.run source (stack.map Roll.inLowerCase) (tokens.map Token.inLowerCase) =
      Roll.inLowerCase <$> table.run source stack tokens := by
  induction tokens generalizing stack with
  | nil =>
      rcases stack with _ | ⟨_, _ | ⟨_, _⟩⟩ <;> rfl
  | cons token tokens ih =>
      obtain ⟨htoken, htokens⟩ := List.forall_mem_cons.mp hadmits
      -- the induction goes on from whatever stack the step leaves
      simp only [List.map_cons, run, step_inLowerCase htoken, map_bind, bind_map_left, ih htokens]

/-- A formula that is accepted is evaluated in lower case as it is written. -/
theorem evaluate_inLowerCase {formula : Formula} (hcheck : table.check formula.tokens = .ok ())
    (source : Source σ) : table.evaluate source formula.inLowerCase =
      Roll.inLowerCase <$> table.evaluate source formula := by
  have hcheck' : table.check formula.inLowerCase.tokens = .ok () := by
    show table.check (formula.tokens.map Token.inLowerCase) = _
    rw [check_map_inLowerCase, hcheck]
    rfl
  rw [evaluate_of_check hcheck, evaluate_of_check hcheck']
  show _ <$> table.run source ([].map Roll.inLowerCase) (formula.tokens.map Token.inLowerCase) = _
  rw [run_map_inLowerCase (check_eq_ok_iff.mp hcheck).2, Functor.map_map, Functor.map_map]
  rfl

/-- Formulas that are the same in lower case are both refused, or are evaluated by the same draws. -/
theorem evaluate_of_inLowerCase_eq {first second : Formula}
    (h : first.inLowerCase = second.inLowerCase) (table : Table) (source : Source σ) :
    Play.inLowerCase Roll.inLowerCase (table.evaluate source first) =
      Play.inLowerCase Roll.inLowerCase (table.evaluate source second) := by
  have htokens : first.tokens.map Token.inLowerCase = second.tokens.map Token.inLowerCase :=
    congrArg Formula.tokens h
  have hcheck : Outcome.inLowerCase id (table.check first.tokens) =
      Outcome.inLowerCase id (table.check second.tokens) := by
    rw [← check_map_inLowerCase, ← check_map_inLowerCase, htokens]
  rcases Outcome.inLowerCase_eq_iff.mp hcheck with
    ⟨_, _, hfirst, hsecond, -⟩ | ⟨e, e', hfirst, hsecond, he⟩
  · apply Play.inLowerCase_congr
    rw [← evaluate_inLowerCase hfirst, ← evaluate_inLowerCase hsecond, h]
  · exact Play.inLowerCase_of_error (evaluate_of_check_error hfirst source)
      (evaluate_of_check_error hsecond source) he

theorem roll_of_toLower_eq {s t : String} (h : s.toLower = t.toLower) (table : Table)
    (source : Source σ) :
    Play.inLowerCase Roll.inLowerCase (table.roll source s) =
      Play.inLowerCase Roll.inLowerCase (table.roll source t) := by
  have hread : Outcome.inLowerCase Formula.inLowerCase (Formula.read table.limits s) =
      Outcome.inLowerCase Formula.inLowerCase (Formula.read table.limits t) := by
    rw [← Formula.read_toLower, ← Formula.read_toLower, h]
  rcases Outcome.inLowerCase_eq_iff.mp hread with
    ⟨first, second, hs, ht, hformula⟩ | ⟨e, e', hs, ht, he⟩
  · rw [roll_of_read hs, roll_of_read ht]
    exact evaluate_of_inLowerCase_eq hformula table source
  · exact Play.inLowerCase_of_error (roll_of_read_error hs source) (roll_of_read_error ht source) he

/-- **Notation does not depend on the case of its letters.** Texts that differ in nothing else are
both cut into tokens, which are the same but for the texts of their groups, or both stop at the same
place. Rolling them makes the same draws, and ends with the same roll but for its label or with the
same error but for what it quotes. -/
theorem roll_letter_case {s t : String} (h : s.toLower = t.toLower) :
    Outcome.inLowerCase (·.map Token.inLowerCase) (Token.scan s) =
      Outcome.inLowerCase (·.map Token.inLowerCase) (Token.scan t) ∧
    ∀ (table : Table) {σ : Type} (source : Source σ),
      Play.inLowerCase Roll.inLowerCase (table.roll source s) =
        Play.inLowerCase Roll.inLowerCase (table.roll source t) ∧
      Play.inLowerCase Roll.inLowerCase (table.roll source.recorded s) =
        Play.inLowerCase Roll.inLowerCase (table.roll source.recorded t) := by
  constructor
  · rw [← Token.scan_toLower, ← Token.scan_toLower, h]
  · intro table σ source
    exact ⟨roll_of_toLower_eq h table source, roll_of_toLower_eq h table source.recorded⟩

/-- `2D6kH1 + DMCPatk` is rolled as `2d6kh1 + dMcpAtk`. -/
theorem roll_letter_case_mixed : "2D6kH1 + DMCPatk".toLower = "2d6kh1 + dMcpAtk".toLower ∧
    Play.inLowerCase Roll.inLowerCase
        (Table.roll {} (Script.source []).recorded "2D6kH1 + DMCPatk")
        (⟨[3, 5, 8, 6], .error⟩, []) =
      (.ok (Roll.inLowerCase ⟨5, [3, 5, 8, 6], [0], 0, "2d6kh1 + dMcpAtk",
          [⟨2, .faction ⟨.attack, [.crit, .hit], 1⟩⟩]⟩), ⟨[], .error⟩,
        [⟨8, .ok 6⟩, ⟨8, .ok 8⟩, ⟨6, .ok 5⟩, ⟨6, .ok 3⟩]) := by
  have hcase : "2D6kH1 + DMCPatk".toLower = "2d6kh1 + dMcpAtk".toLower := by
    rw [String.toLower, String.toLower, ← String.toList_inj, String.toList_map, String.toList_map]
    decide +kernel
  have hread : Formula.read (Table.mk .full {}).limits "2d6kh1 + dMcpAtk" =
      .ok ⟨[.dice ⟨"2d6kh1", ⟨⟨2, by decide, by decide⟩, ⟨6, by decide, by decide⟩, .standard, false,
          some ⟨.keep, .high, .one⟩⟩⟩,
        .dice ⟨"dMcpAtk", .plain .one ⟨8, by decide, by decide⟩ .factionAttack⟩,
        .operator .add], "2d6kh1 + dMcpAtk"⟩ := by
    decide +kernel
  have hroll : Table.roll {} (Script.source []).recorded "2d6kh1 + dMcpAtk"
      (⟨[3, 5, 8, 6], .error⟩, []) =
      (.ok ⟨5, [3, 5, 8, 6], [0], 0, "2d6kh1 + dMcpAtk",
          [⟨2, .faction ⟨.attack, [.crit, .hit], 1⟩⟩]⟩, ⟨[], .error⟩,
        [⟨8, .ok 6⟩, ⟨8, .ok 8⟩, ⟨6, .ok 5⟩, ⟨6, .ok 3⟩]) := by
    rw [roll_of_read hread]
    cbv
  refine ⟨hcase, ?_⟩
  rw [((roll_letter_case hcase).2 {} (Script.source [])).2, Play.inLowerCase, hroll]
  rfl

end Table

end DiceNotation
