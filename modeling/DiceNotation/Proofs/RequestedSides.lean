import DiceNotation.Proofs.Evaluation
import DiceNotation.Proofs.LiteralAgreement
import DiceNotation.Proofs.Reading
import DiceNotation.Proofs.RuleDraws

/-!
# Requested sides

How many sides a source is asked for, in runs that succeed and in runs that fail. A rule asks for the
faces of its group, but fudge dice always for three. The ceiling on faces covers standard and duality
dice. Fudge and faction dice are drawn whatever it is, with the three and eight faces of their tags.
-/

namespace DiceNotation

namespace Play

variable {α β : Type} {allowed allowed' : Int64 → Prop}

/-- Whatever the source answers, it is asked only for allowed numbers of sides. -/
abbrev AsksIn (play : Uniform α) (allowed : Int64 → Prop) : Prop :=
  Draws play fun _ draws => ∀ d ∈ draws, allowed d.sides

theorem AsksIn.mono {play : Uniform α} (h : AsksIn play allowed)
    (hle : ∀ sides, allowed sides → allowed' sides) : AsksIn play allowed' := by
  apply Draws.mono h
  intro result draws hdraws d hd
  exact hle d.sides (hdraws d hd)

theorem asksIn_ofExcept (result : Except Error α) :
    AsksIn (fun _ _ => ofExcept result) allowed := by
  apply (draws_ofExcept result).mono
  rintro _ _ ⟨-, rfl⟩
  simp

theorem asksIn_pure (a : α) : AsksIn (fun _ _ => pure a) allowed :=
  asksIn_ofExcept (.ok a)

/-- Behind an error nothing runs. -/
theorem ofExcept_error_bind {σ : Type} (e : Error) (next : α → Play σ β) :
    (ofExcept (.error e) >>= next) = ofExcept (.error e) := by
  funext state
  exact bind_apply (ofExcept (.error e)) next state

theorem asksIn_face {sides : Int64} (h : allowed sides) :
    AsksIn (fun _ source => source.face sides) allowed := by
  apply (draws_face sides).mono
  rintro result _ rfl
  simpa using h

theorem AsksIn.bind {p : Uniform α} {q : α → Uniform β} (hp : AsksIn p allowed)
    (hq : ∀ a, AsksIn (q a) allowed) :
    AsksIn (fun _ source => p _ source >>= fun a => q a _ source) allowed := by
  apply (Draws.bind hp fun a _ _ => hq a).mono
  rintro result draws (⟨e, -, hdraws⟩ | ⟨a, first, second, hfirst, hsecond, rfl⟩)
  · exact hdraws
  · exact List.forall_mem_append.mpr ⟨hfirst, hsecond⟩

theorem AsksIn.times {p : Uniform α} (hp : AsksIn p allowed) (n : Nat) :
    AsksIn (fun _ source => times n (p _ source)) allowed := by
  induction n with
  | zero => exact asksIn_pure []
  | succ n ih => exact hp.bind fun first => ih.bind fun others => asksIn_pure (first :: others)

end Play

open Play

/-! ## Rules -/

namespace Rule

/-- How many sides the rule asks for when it rolls the group. -/
def askedSides (rule : Rule) (dice : Dice) : Int64 :=
  match rule with
  | fudge => 3
  | _ => dice.sides.toInt64

theorem asksIn_chain (sides : Int64) (extra : Nat) :
    AsksIn (fun _ source => chain source sides extra) (· = sides) := by
  have hface : AsksIn (fun _ source => source.face sides) (· = sides) := asksIn_face rfl
  induction extra with
  | zero => exact hface.bind fun face => asksIn_pure [face]
  | succ extra ih =>
      apply hface.bind
      intro face
      by_cases hagain : face = sides
      · simp only [if_pos hagain]
        exact ih.bind fun faces => asksIn_pure (face :: faces)
      · simp only [if_neg hagain]
        exact asksIn_pure [face]

/-- One rule asks for one number of sides, in its loops and behind them. -/
theorem asksIn_roll (rule : Rule) (limits : Limits) (literal : Literal) :
    AsksIn (fun _ source => rule.roll limits source literal)
      (· = rule.askedSides literal.dice) := by
  apply (asksIn_ofExcept (rule.check limits literal.dice)).bind
  intro _
  cases rule with
  | standard =>
      have hchains := (asksIn_chain literal.dice.sides.toInt64
        (extraDraws limits literal.dice)).times literal.dice.count.val
      exact hchains.bind fun chains => asksIn_pure _
  | fudge =>
      have hface : AsksIn (fun _ source => source.face 3) (· = 3) := asksIn_face rfl
      exact (hface.times literal.dice.count.val).bind fun faces => asksIn_pure _
  | duality =>
      have hface : AsksIn (fun _ source => source.face literal.dice.sides.toInt64)
        (· = literal.dice.sides.toInt64) := asksIn_face rfl
      have hpair : AsksIn (fun _ source => dualityPair source literal.dice.sides.toInt64)
          (· = literal.dice.sides.toInt64) :=
        hface.bind fun primary => hface.bind fun secondary => asksIn_pure _
      exact (hpair.times literal.dice.count.val).bind fun rolled =>
        (asksIn_ofExcept _).bind fun pairs => asksIn_pure _
  | faction =>
      have hface : AsksIn (fun _ source => source.face literal.dice.sides.toInt64)
        (· = literal.dice.sides.toInt64) := asksIn_face rfl
      exact (hface.times literal.dice.count.val).bind fun base => (hface.times _).bind fun bonus =>
        (asksIn_ofExcept _).bind fun symbols => asksIn_pure _

end Rule

/-! ## Formulas -/

namespace Table

variable {table : Table} {tokens : List Token}

/-- The tokens hold a group for whose rule the source is asked for this number of sides. -/
def Asks (table : Table) (tokens : List Token) (sides : Int64) : Prop :=
  ∃ literal rule, .dice literal ∈ tokens ∧ table.rulebook.ruleFor literal = .ok rule ∧
    sides = rule.askedSides literal.dice

theorem Asks.mono {others : List Token} {sides : Int64} (h : table.Asks tokens sides)
    (hsubset : tokens ⊆ others) : table.Asks others sides := by
  obtain ⟨literal, rule, hmem, hrule, hsides⟩ := h
  exact ⟨literal, rule, hsubset hmem, hrule, hsides⟩

end Table

theorem Expr.asksIn_roll (table : Table) (e : Expr) :
    AsksIn (fun _ source => e.roll table source) (table.Asks e.postOrder) := by
  induction e with
  | number value => exact asksIn_pure _
  | dice literal =>
      cases hrule : table.rulebook.ruleFor literal with
      | error e =>
          simp only [Expr.roll, hrule, ofExcept_error_bind]
          exact asksIn_ofExcept (.error e)
      | ok rule =>
          simp only [Expr.roll, hrule, ofExcept_ok, pure_bind]
          apply (rule.asksIn_roll table.limits literal).mono
          rintro sides rfl
          exact ⟨literal, rule, List.mem_singleton_self _, hrule, rfl⟩
  | binary left op right ihl ihr =>
      have hleft : AsksIn (fun _ source => left.roll table source)
          (table.Asks (binary left op right).postOrder) := by
        apply ihl.mono
        intro sides hasks
        apply hasks.mono
        simp [postOrder]
      have hright : AsksIn (fun _ source => right.roll table source)
          (table.Asks (binary left op right).postOrder) := by
        apply ihr.mono
        intro sides hasks
        apply hasks.mono
        simp [postOrder]
      exact hleft.bind fun l => hright.bind fun r => asksIn_ofExcept _

namespace Table

/-- Behind the check, the source is asked only for groups that have passed it. -/
theorem asksIn_evaluate (table : Table) (formula : Formula) :
    AsksIn (fun _ source => table.evaluate source formula) (fun sides =>
      (∀ t ∈ formula.tokens, table.Admits t) ∧ table.Asks formula.tokens sides) := by
  obtain ⟨tokens, text⟩ := formula
  cases hcheck : table.check tokens with
  | error e =>
      simp only [evaluate, hcheck, ofExcept_error_bind]
      exact asksIn_ofExcept (.error e)
  | ok _ =>
      obtain ⟨hreduces, hall⟩ := check_eq_ok_iff.mp hcheck
      obtain ⟨e, rfl⟩ := Expr.exists_postOrder_eq hreduces
      simp only [evaluate_postOrder hcheck, map_eq_pure_bind]
      have hroll := (e.asksIn_roll table).bind fun roll => asksIn_pure { roll with label := text }
      exact hroll.mono fun sides hasks => ⟨hall, hasks⟩

theorem asksIn_roll (table : Table) (input : String) :
    AsksIn (fun _ source => table.roll source input) (fun sides =>
      ∃ formula, Formula.read table.limits input = .ok formula ∧
        (∀ t ∈ formula.tokens, table.Admits t) ∧ table.Asks formula.tokens sides) := by
  cases hread : Formula.read table.limits input with
  | error e =>
      simp only [roll, hread, ofExcept_error_bind]
      exact asksIn_ofExcept (.error e)
  | ok formula =>
      simp only [roll_of_read hread]
      apply (table.asksIn_evaluate formula).mono
      intro sides hasks
      exact ⟨formula, rfl, hasks⟩

end Table

/-! ## Groups that are written in a text -/

theorem Quantity.toInt_toInt64 (q : Quantity) : q.toInt64.toInt = q.val := by
  have hle := q.le
  rw [toInt64, Int64.toInt_ofNat_of_lt]
  omega

namespace Literal

/-- A group that is not of standard dice has the faces of its tag. -/
theorem fixedSides_of_readDice {text : List Char} {dice : Dice} (h : readDice text = .ok dice) :
    dice.kind = .standard ∨ dice.kind.fixedSides? = some dice.sides := by
  obtain ⟨front, d, rest, -, -, -, -, hsides, -, -⟩ := readDice_eq_ok_iff.mp h
  rcases readSides_cases hsides with ⟨hkind, -⟩ | ⟨hkind, -⟩ | ⟨-, -, hfixed⟩
  · exact .inl hkind
  · exact .inl hkind
  · exact .inr hfixed

end Literal

theorem Formula.ReadAs.readDice_of_mem {limits : Limits} {input : String} {formula : Formula}
    {tokens : List Token} (h : Formula.ReadAs limits input formula tokens) {literal : Literal}
    (hmem : .dice literal ∈ formula.tokens) :
    Literal.readDice literal.text.toList = .ok literal.dice := by
  obtain ⟨words, hlexes⟩ := h.exists_lexes
  have hwritten : .dice literal ∈ tokens := (h.mem_iff_of_isOperand rfl).mp hmem
  obtain ⟨word, -, htext, hread⟩ := hlexes.exists_word_of_dice hwritten
  rw [htext, String.toList_ofList]
  exact hread

/-- What a source may be asked for a group within the limits. Only standard and duality dice are held
to the ceiling on faces. -/
def Dice.MayAsk (limits : Limits) (dice : Dice) (sides : Int64) : Prop :=
  match dice.kind with
  | .fudge => sides = 3
  | .factionAttack | .factionDefense => sides = 8
  | .standard | .duality => sides.toInt = dice.sides.val ∧ dice.sides.val ≤ limits.sides

theorem Dice.mayAsk_of_check {limits : Limits} {dice : Dice} {rule : Rule}
    (hfixed : dice.kind = .standard ∨ dice.kind.fixedSides? = some dice.sides)
    (hhandles : rule.handles dice.kind = true) (hcheck : rule.check limits dice = .ok ()) :
    dice.MayAsk limits (rule.askedSides dice) := by
  obtain ⟨-, hsides⟩ := Rule.check_eq_ok_iff.mp hcheck
  obtain ⟨count, sides, kind, explode, selection?⟩ := dice
  cases kind with
  | standard =>
      obtain rfl : rule = .standard := Rule.handles_unique hhandles rfl
      exact ⟨sides.toInt_toInt64, hsides (.inl rfl)⟩
  | duality =>
      obtain rfl : rule = .duality := Rule.handles_unique hhandles rfl
      exact ⟨sides.toInt_toInt64, hsides (.inr rfl)⟩
  | fudge =>
      obtain rfl : rule = .fudge := Rule.handles_unique hhandles rfl
      rfl
  | factionAttack | factionDefense =>
      obtain rfl : rule = .faction := Rule.handles_unique hhandles rfl
      cases hfixed.resolve_left nofun
      rfl

theorem Dice.MayAsk.toInt_le {limits : Limits} {dice : Dice} {sides : Int64}
    (h : dice.MayAsk limits sides) (hceiling : 8 ≤ limits.sides) : sides.toInt ≤ limits.sides := by
  obtain ⟨count, faces, kind, explode, selection?⟩ := dice
  cases kind with
  | standard | duality =>
      obtain ⟨hvalue, hle⟩ := h
      rw [hvalue]
      exact_mod_cast hle
  | fudge =>
      obtain rfl : sides = 3 := h
      show (3 : Int) ≤ limits.sides
      omega
  | factionAttack | factionDefense =>
      obtain rfl : sides = 8 := h
      show (8 : Int) ≤ limits.sides
      omega

namespace Table

variable {table : Table} {input : String} {formula : Formula} {literal : Literal}

/-- Whoever asks for a group of a text asks for what its kind may ask for. -/
theorem Asks.mayAsk {sides : Int64} (hread : Formula.read table.limits input = .ok formula)
    (hall : ∀ t ∈ formula.tokens, table.Admits t) (hasks : table.Asks formula.tokens sides) :
    ∃ literal, .dice literal ∈ formula.tokens ∧ literal.dice.MayAsk table.limits sides := by
  obtain ⟨literal, rule, hmem, hrule, rfl⟩ := hasks
  obtain ⟨tokens, hreadAs⟩ := Formula.read_eq_ok_iff.mp hread
  have hfixed := Literal.fixedSides_of_readDice (hreadAs.readDice_of_mem hmem)
  have hcheck := (admits_dice_iff_check hrule).mp (hall _ hmem)
  obtain ⟨-, hhandles⟩ := Rulebook.ruleFor_eq_ok_iff.mp hrule
  exact ⟨literal, hmem, Dice.mayAsk_of_check hfixed hhandles hcheck⟩

/-- The rules for standard and duality dice hold a group to the ceiling. -/
theorem not_admits_of_sides (hkind : literal.dice.kind = .standard ∨ literal.dice.kind = .duality)
    (hlarge : table.limits.sides < literal.dice.sides.val) : ¬ table.Admits (.dice literal) := by
  rintro ⟨rule, -, hhandles, -, hsides⟩
  have hbounds : rule.boundsSides := by
    rcases hkind with hkind | hkind
    · rw [hkind] at hhandles
      exact .inl (Rule.handles_unique hhandles rfl)
    · rw [hkind] at hhandles
      exact .inr (Rule.handles_unique hhandles rfl)
  exact absurd (hsides hbounds) (Nat.not_le.mpr hlarge)

variable {σ : Type}

/-- A text with a token that is not admitted is refused, and the state stays as it is. -/
theorem roll_of_not_admits {token : Token} (hread : Formula.read table.limits input = .ok formula)
    (hmem : token ∈ formula.tokens) (hnot : ¬ table.Admits token) (source : Source σ) (s : σ) :
    ∃ e, table.FirstFault 0 formula.tokens e ∧ table.roll source input s = (.error e, s) := by
  obtain ⟨e, hfault, hrefused⟩ := exists_fault_of_not_admits hmem hnot
  refine ⟨e, hfault, ?_⟩
  rw [roll_of_read hread]
  exact hrefused source s

/-- **Which groups the ceiling on faces covers.** Whether a roll of a text succeeds or fails, the
source is asked only for groups of the text: for the faces of standard and duality dice, which are
within the ceiling, for three faces of fudge dice and for eight of faction dice. So under a ceiling
of eight or more every request is within it. A text with standard or duality dice above the ceiling
draws nothing and is refused. -/
theorem sides_of_roll (table : Table) (input : String) (source : Source σ) (s : σ)
    (record : List Draw) :
    ∃ draws : List Draw,
      table.roll source.recorded input (s, record) =
        ((table.roll source input s).1, (table.roll source input s).2, draws.reverse ++ record) ∧
      (∀ d ∈ draws, ∃ formula literal, Formula.read table.limits input = .ok formula ∧
        .dice literal ∈ formula.tokens ∧ literal.dice.MayAsk table.limits d.sides) ∧
      (8 ≤ table.limits.sides → ∀ d ∈ draws, d.sides.toInt ≤ table.limits.sides) ∧
      ∀ formula literal, Formula.read table.limits input = .ok formula →
        .dice literal ∈ formula.tokens →
        literal.dice.kind = .standard ∨ literal.dice.kind = .duality →
        table.limits.sides < literal.dice.sides.val →
        draws = [] ∧ ∃ e, table.FirstFault 0 formula.tokens e ∧
          table.roll source input s = (.error e, s) := by
  obtain ⟨draws, hrun, hasks⟩ := table.asksIn_roll input σ source s record
  have hmay : ∀ d ∈ draws, ∃ formula literal, Formula.read table.limits input = .ok formula ∧
      .dice literal ∈ formula.tokens ∧ literal.dice.MayAsk table.limits d.sides := by
    intro d hd
    obtain ⟨formula, hread, hall, hasked⟩ := hasks d hd
    obtain ⟨literal, hmem, hmay⟩ := hasked.mayAsk hread hall
    exact ⟨formula, literal, hread, hmem, hmay⟩
  refine ⟨draws, hrun, hmay, ?_, ?_⟩
  · intro hceiling d hd
    obtain ⟨formula, literal, -, -, hasked⟩ := hmay d hd
    exact hasked.toInt_le hceiling
  · intro formula literal hread hmem hkind hlarge
    have hnot : ¬ table.Admits (.dice literal) := not_admits_of_sides hkind hlarge
    refine ⟨?_, roll_of_not_admits hread hmem hnot source s⟩
    -- a draw would be made for a formula that has passed the check, and this one does not
    by_contra hne
    obtain ⟨d, hd⟩ := List.exists_mem_of_ne_nil draws hne
    obtain ⟨other, hother, hall, -⟩ := hasks d hd
    rw [hread] at hother
    obtain rfl : formula = other := Except.ok.inj hother
    exact hnot (hall _ hmem)

/-- Duality dice have twelve faces and are refused under a ceiling of eight. -/
theorem sides_of_roll_duality :
    ∃ e, FirstFault ⟨.full, { sides := 8 }⟩ 0
        [.dice ⟨"2dh", .plain ⟨2, by decide, by decide⟩ ⟨12, by decide, by decide⟩ .duality⟩] e ∧
      roll ⟨.full, { sides := 8 }⟩ (Script.source []) "2dh" ⟨[], .lowest⟩ =
        (.error e, ⟨[], .lowest⟩) ∧
      roll ⟨.full, { sides := 8 }⟩ (Script.source []).recorded "2dh" (⟨[], .lowest⟩, []) =
        (.error e, ⟨[], .lowest⟩, []) := by
  have hread : Formula.read (Table.mk .full { sides := 8 }).limits "2dh" =
      .ok ⟨[.dice ⟨"2dh", .plain ⟨2, by decide, by decide⟩ ⟨12, by decide, by decide⟩ .duality⟩],
        "2dh"⟩ := by
    decide +kernel
  obtain ⟨draws, hrun, -, -, hrefused⟩ :=
    sides_of_roll ⟨.full, { sides := 8 }⟩ "2dh" (Script.source []) ⟨[], .lowest⟩ []
  obtain ⟨rfl, e, hfault, hroll⟩ :=
    hrefused _ _ hread (List.mem_singleton_self _) (.inr rfl) (by decide)
  rw [hroll] at hrun
  exact ⟨e, hfault, hroll, hrun⟩

/-- Fudge dice are drawn under a ceiling of two faces. -/
theorem exists_asked_above_ceiling :
    ¬ ∀ (limits : Limits) (input : String) (script : Script),
      ∀ d ∈ (roll ⟨.full, limits⟩ (Script.source []).recorded input (script, [])).2.2,
        d.sides.toInt ≤ limits.sides := by
  intro hall
  have hread : Formula.read (Table.mk .full { sides := 2 }).limits "dF" =
      .ok ⟨[.dice ⟨"dF", .plain .one ⟨3, by decide, by decide⟩ .fudge⟩], "dF"⟩ := by
    decide +kernel
  have hle := hall { sides := 2 } "dF" ⟨[], .lowest⟩ (.face 3 1) (by
    rw [roll_of_read hread]
    exact List.mem_singleton_self _)
  exact absurd hle (by decide)

end Table

end DiceNotation
