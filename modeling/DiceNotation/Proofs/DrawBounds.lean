import DiceNotation.Proofs.RequestedSides

/-!
# How often a source is asked

Every loop over a source has a bound that does not depend on what the source answers: a chain of an
exploding die ends at the explosion depth, and the bonus dice of a faction group are no more than
its dice. A literal takes two characters at least, so a text that is cut to its length limit cannot
ask for many groups. Together these bound the draws for one text, whether the roll succeeds or
fails.
-/

namespace DiceNotation

namespace Play

variable {α β : Type} {play p : Uniform α} {q : α → Uniform β} {m n : Nat}

/-- A run makes one list of draws, so what two specifications say of it holds together. -/
theorem Draws.and {P Q : Except Error α → List Draw → Prop} (hP : Draws play P)
    (hQ : Draws play Q) : Draws play fun result draws => P result draws ∧ Q result draws := by
  intro σ source s record
  obtain ⟨draws, hrun, hpost⟩ := hP σ source s record
  obtain ⟨draws', hrun', hpost'⟩ := hQ σ source s record
  have hrecord : draws.reverse ++ record = draws'.reverse ++ record :=
    congrArg (·.2.2) (hrun.symm.trans hrun')
  obtain rfl : draws = draws' := List.reverse_injective (List.append_cancel_right hrecord)
  exact ⟨draws, hrun, hpost, hpost'⟩

/-- Whatever the source answers, it is asked `n` times at most. -/
abbrev AtMost (play : Uniform α) (n : Nat) : Prop :=
  Draws play fun _ draws => draws.length ≤ n

theorem AtMost.mono (h : AtMost play n) (hle : n ≤ m) : AtMost play m := by
  apply Draws.mono h
  intro result draws hdraws
  exact hdraws.trans hle

theorem atMost_ofExcept (result : Except Error α) : AtMost (fun _ _ => ofExcept result) 0 := by
  apply (draws_ofExcept result).mono
  rintro _ _ ⟨-, rfl⟩
  exact le_rfl

theorem atMost_pure (a : α) : AtMost (fun _ _ => pure a) 0 :=
  atMost_ofExcept (.ok a)

theorem atMost_face (sides : Int64) : AtMost (fun _ source => source.face sides) 1 := by
  apply (draws_face sides).mono
  rintro result _ rfl
  exact le_rfl

/-- The second computation may rely on what holds of the values of the first one. -/
theorem AtMost.bind_of_value {P : α → Prop} (hp : AtMost p n)
    (hvalue : Draws p fun result _ => ∀ a, result = .ok a → P a) (hq : ∀ a, P a → AtMost (q a) m) :
    AtMost (fun _ source => p _ source >>= fun a => q a _ source) (n + m) := by
  have hboth := Draws.and hp hvalue
  apply (Draws.bind hboth fun a draws h => hq a (h.2 a rfl)).mono
  rintro result draws (⟨e, -, hdraws, -⟩ | ⟨a, first, second, ⟨hfirst, -⟩, hsecond, rfl⟩)
  · exact hdraws.trans (Nat.le_add_right n m)
  · rw [List.length_append]
    exact Nat.add_le_add hfirst hsecond

theorem AtMost.bind (hp : AtMost p n) (hq : ∀ a, AtMost (q a) m) :
    AtMost (fun _ source => p _ source >>= fun a => q a _ source) (n + m) := by
  have hvalue : Draws p fun result _ => ∀ a, result = .ok a → True :=
    Draws.mono hp fun _ _ _ _ _ => trivial
  exact hp.bind_of_value hvalue fun a _ => hq a

theorem AtMost.map (hp : AtMost p n) (f : α → β) :
    AtMost (fun _ source => p _ source >>= fun a => pure (f a)) n :=
  hp.bind fun a => atMost_pure (f a)

theorem AtMost.times (hp : AtMost p m) (n : Nat) :
    AtMost (fun _ source => times n (p _ source)) (n * m) := by
  induction n with
  | zero =>
      rw [Nat.zero_mul]
      exact atMost_pure []
  | succ n ih =>
      rw [Nat.succ_mul, Nat.add_comm (n * m)]
      exact hp.bind fun first => ih.map (first :: ·)

theorem atMost_times_face (n : Nat) (sides : Int64) :
    AtMost (fun _ source => Play.times n (source.face sides)) n := by
  have hfaces := (atMost_face sides).times n
  rwa [Nat.mul_one] at hfaces

/-- There are as many faces as were asked for. -/
theorem length_of_times_face (n : Nat) (sides : Int64) :
    Draws (fun _ source => times n (source.face sides))
      fun result _ => ∀ faces, result = .ok faces → faces.length = n := by
  apply Draws.mono (@yields_times_face (fun _ => True) n sides)
  rintro result draws hends faces rfl
  cases hends with
  | value _ h => exact h.1

end Play

open Play

/-! ## Groups -/

namespace Rule

variable {limits : Limits} {literal : Literal}

/-- The most draws that the rule makes for the group: a chain for each standard die, one draw for
each fudge die, two for each pair, and a bonus die for each faction die that may be a crit. -/
def mostDraws (rule : Rule) (limits : Limits) (dice : Dice) : Nat :=
  match rule with
  | standard => dice.count.val * max 1 limits.explosionDepth
  | fudge => dice.count.val
  | duality | faction => 2 * dice.count.val

theorem atMost_chain (sides : Int64) (extra : Nat) :
    AtMost (fun _ source => chain source sides extra) (extra + 1) := by
  induction extra with
  | zero => exact (atMost_face sides).map fun face => [face]
  | succ extra ih =>
      rw [Nat.add_comm (extra + 1)]
      apply (atMost_face sides).bind
      intro face
      by_cases hagain : face = sides
      · simp only [if_pos hagain]
        exact ih.map (face :: ·)
      · simp only [if_neg hagain]
        exact (atMost_pure [face]).mono (Nat.zero_le _)

theorem extraDraws_lt (limits : Limits) (dice : Dice) :
    extraDraws limits dice + 1 ≤ max 1 limits.explosionDepth := by
  unfold extraDraws
  split <;> omega

/-- The number of bonus dice is that of the crits among the dice asked for. -/
theorem atMost_rollFaction : AtMost (fun _ source => rollFaction source literal)
    (2 * literal.dice.count.val) := by
  rw [Nat.two_mul]
  apply (atMost_times_face literal.dice.count.val literal.dice.sides.toInt64).bind_of_value
    (length_of_times_face literal.dice.count.val literal.dice.sides.toInt64)
  intro base hlength
  have hcrits : base.countP (FactionSymbol.of (profile literal.dice.kind) · = .crit) ≤
      literal.dice.count.val := hlength ▸ List.countP_le_length
  have hbonus := atMost_times_face
    (base.countP (FactionSymbol.of (profile literal.dice.kind) · = .crit))
    literal.dice.sides.toInt64
  exact (hbonus.mono hcrits).bind fun bonus => (atMost_ofExcept _).map _

theorem atMost_roll (rule : Rule) (limits : Limits) (literal : Literal) :
    AtMost (fun _ source => rule.roll limits source literal)
      (rule.mostDraws limits literal.dice) := by
  have hcheck := atMost_ofExcept (rule.check limits literal.dice)
  rw [← Nat.zero_add (rule.mostDraws limits literal.dice)]
  apply hcheck.bind
  intro _
  cases rule with
  | standard =>
      have hchains := ((atMost_chain literal.dice.sides.toInt64
        (extraDraws limits literal.dice)).mono (extraDraws_lt limits literal.dice)).times
          literal.dice.count.val
      exact hchains.map _
  | fudge => exact (atMost_times_face literal.dice.count.val 3).map _
  | duality =>
      have hpair : AtMost (fun _ source => dualityPair source literal.dice.sides.toInt64) 2 :=
        (atMost_face _).bind fun primary => (atMost_face _).map (DualityPair.of primary)
      have hpairs := hpair.times literal.dice.count.val
      rw [Nat.mul_comm] at hpairs
      exact hpairs.bind fun rolled => (atMost_ofExcept _).map _
  | faction => exact atMost_rollFaction

/-- The bound for any group that passes the check of its rule. -/
theorem mostDraws_le {rule : Rule} {dice : Dice} (hcount : dice.count.val ≤ limits.dice) :
    rule.mostDraws limits dice ≤ limits.dice * max 2 limits.explosionDepth := by
  have hdepth : max 1 limits.explosionDepth ≤ max 2 limits.explosionDepth := by omega
  cases rule with
  | standard => exact Nat.mul_le_mul hcount hdepth
  | fudge => exact hcount.trans (Nat.le_mul_of_pos_right _ (by omega))
  | duality | faction =>
      show 2 * dice.count.val ≤ _
      rw [Nat.mul_comm]
      exact Nat.mul_le_mul hcount (Nat.le_max_left 2 _)

end Rule

/-! ## Formulas -/

namespace Table

variable {table : Table}

/-- The most draws that a table makes for a group; none if no rule handles it. -/
def mostDraws (table : Table) (literal : Literal) : Nat :=
  match table.rulebook.ruleFor literal with
  | .ok rule => rule.mostDraws table.limits literal.dice
  | .error _ => 0

theorem mostDraws_le {literal : Literal} (h : table.Admits (.dice literal)) :
    table.mostDraws literal ≤ table.limits.dice * max 2 table.limits.explosionDepth := by
  obtain ⟨rule, hrule⟩ := exists_ruleFor_of_admits h
  obtain ⟨-, -, -, hcount, -⟩ := h
  simp only [mostDraws, hrule]
  exact Rule.mostDraws_le hcount

/-- The most draws that a table makes for the groups among the tokens. -/
def mostDrawsOf (table : Table) (tokens : List Token) : Nat :=
  ((tokens.filterMap Token.literal?).map table.mostDraws).sum

theorem mostDrawsOf_append (first second : List Token) :
    table.mostDrawsOf (first ++ second) = table.mostDrawsOf first + table.mostDrawsOf second := by
  simp only [mostDrawsOf, List.filterMap_append, List.map_append, List.sum_append]

theorem mostDrawsOf_le {tokens : List Token} (hall : ∀ t ∈ tokens, table.Admits t) :
    table.mostDrawsOf tokens ≤ (tokens.filterMap Token.literal?).length *
      (table.limits.dice * max 2 table.limits.explosionDepth) := by
  rw [mostDrawsOf, ← List.length_map table.mostDraws, ← smul_eq_mul]
  apply List.sum_le_card_nsmul
  intro n hn
  obtain ⟨literal, hliteral, rfl⟩ := List.mem_map.mp hn
  obtain ⟨token, htoken, hsome⟩ := List.mem_filterMap.mp hliteral
  obtain rfl : token = .dice literal := by
    cases token <;> simp_all [Token.literal?]
  exact mostDraws_le (hall _ htoken)

end Table

theorem Expr.atMost_roll (table : Table) (e : Expr) :
    AtMost (fun _ source => e.roll table source) (table.mostDrawsOf e.postOrder) := by
  induction e with
  | number value => exact atMost_pure _
  | dice literal =>
      have hmost : table.mostDrawsOf (dice literal).postOrder = table.mostDraws literal := by
        simp [Table.mostDrawsOf, postOrder, Token.literal?]
      rw [hmost, Table.mostDraws]
      cases hrule : table.rulebook.ruleFor literal with
      | error e =>
          simp only [Expr.roll, hrule, ofExcept_error_bind]
          exact atMost_ofExcept (.error e)
      | ok rule =>
          simp only [Expr.roll, hrule, ofExcept_ok, pure_bind]
          exact rule.atMost_roll table.limits literal
  | binary left op right ihl ihr =>
      have hmost : table.mostDrawsOf (binary left op right).postOrder =
          table.mostDrawsOf left.postOrder + table.mostDrawsOf right.postOrder := by
        rw [postOrder, Table.mostDrawsOf_append, Table.mostDrawsOf_append]
        rfl
      rw [hmost]
      exact ihl.bind fun l => ihr.bind fun r => atMost_ofExcept _

namespace Table

variable {table : Table} {formula : Formula}

theorem atMost_evaluate_of_check (hcheck : table.check formula.tokens = .ok ()) :
    AtMost (fun _ source => table.evaluate source formula) (table.mostDrawsOf formula.tokens) := by
  obtain ⟨tokens, text⟩ := formula
  obtain ⟨hreduces, -⟩ := check_eq_ok_iff.mp hcheck
  obtain ⟨e, rfl⟩ := Expr.exists_postOrder_eq hreduces
  simp only [evaluate_postOrder hcheck, map_eq_pure_bind]
  exact (e.atMost_roll table).map _

theorem atMost_evaluate_of_check_error {e : Error}
    (hcheck : table.check formula.tokens = .error e) :
    AtMost (fun _ source => table.evaluate source formula) 0 := by
  simp only [evaluate, hcheck, ofExcept_error_bind]
  exact atMost_ofExcept (.error e)

end Table

/-! ## Texts -/

namespace Lexeme

/-- A dice literal has a delimiter and faces. -/
theorem two_le_length_of_matches_dice {w : List Char} (hw : Kind.Matches .dice w) :
    2 ≤ w.length := by
  obtain ⟨parts, hparts, rfl⟩ := DiceParts.mem_dice_iff.mp hw
  have hsides := List.length_pos_of_ne_nil (Pattern.ne_nil_of_mem_sides hparts.sides)
  simp only [DiceParts.text, List.length_append, List.length_cons]
  omega

/-- The words do not overlap, so a text has half as many groups as characters at most. -/
theorem Lexes.two_mul_literals_le {text stop : List Char} {words : List (List Char)}
    {tokens : List Token} (h : Lexes text words tokens stop) :
    2 * (tokens.filterMap Token.literal?).length ≤ text.length := by
  induction h with
  | stop text => exact Nat.zero_le _
  | @next kind word rest stop token? words tokens hlongest hstands hrest ih =>
      have hfirst : 2 * (token?.toList.filterMap Token.literal?).length ≤ word.length := by
        cases hstands with
        | dice => exact two_le_length_of_matches_dice hlongest.matched
        | _ => exact Nat.zero_le _
      rw [List.filterMap_append, List.length_append, List.length_append]
      omega

end Lexeme

namespace Formula

theorem ReadAs.two_mul_literals_le {limits : Limits} {input : String} {formula : Formula}
    {tokens : List Token} (h : ReadAs limits input formula tokens) :
    2 * (formula.tokens.filterMap Token.literal?).length ≤ formula.text.length := by
  obtain ⟨words, hlexes⟩ := h.exists_lexes
  rw [PostOrder.literals_of_ofInfix h.order, h.text, ← String.length_toList, String.toList_ofList]
  exact hlexes.two_mul_literals_le

theorem ReadAs.length_text_le {limits : Limits} {input : String} {formula : Formula}
    {tokens : List Token} (h : ReadAs limits input formula tokens) :
    formula.text.length ≤ limits.inputLength := by
  rw [h.text, ← String.length_toList, String.toList_ofList]
  exact length_significant_le limits input.toList

end Formula

namespace Table

variable {table : Table} {input : String}

/-- What the draws for a text are bounded by if it is not refused. -/
theorem mostDrawsOf_le_of_read {formula : Formula}
    (hread : Formula.read table.limits input = .ok formula)
    (hall : ∀ t ∈ formula.tokens, table.Admits t) :
    table.mostDrawsOf formula.tokens ≤ table.limits.inputLength / 2 * table.limits.dice *
      max 2 table.limits.explosionDepth := by
  obtain ⟨tokens, h⟩ := Formula.read_eq_ok_iff.mp hread
  have hgroups : (formula.tokens.filterMap Token.literal?).length ≤
      table.limits.inputLength / 2 := by
    have htext := h.two_mul_literals_le
    have hlength := h.length_text_le
    omega
  calc table.mostDrawsOf formula.tokens
      ≤ (formula.tokens.filterMap Token.literal?).length *
          (table.limits.dice * max 2 table.limits.explosionDepth) := mostDrawsOf_le hall
    _ ≤ table.limits.inputLength / 2 *
          (table.limits.dice * max 2 table.limits.explosionDepth) :=
        Nat.mul_le_mul_right _ hgroups
    _ = table.limits.inputLength / 2 * table.limits.dice * max 2 table.limits.explosionDepth :=
        (Nat.mul_assoc _ _ _).symm

theorem exists_atMost_roll (table : Table) (input : String) :
    ∃ n, AtMost (fun _ source => table.roll source input) n ∧
      n ≤ table.limits.inputLength / 2 * table.limits.dice * max 2 table.limits.explosionDepth ∧
      ∀ formula, Formula.read table.limits input = .ok formula →
        n ≤ table.mostDrawsOf formula.tokens := by
  cases hread : Formula.read table.limits input with
  | error e =>
      refine ⟨0, ?_, Nat.zero_le _, fun _ _ => Nat.zero_le _⟩
      simp only [roll, hread, ofExcept_error_bind]
      exact atMost_ofExcept (.error e)
  | ok formula =>
      simp only [roll_of_read hread]
      cases hcheck : table.check formula.tokens with
      | error e =>
          exact ⟨0, atMost_evaluate_of_check_error hcheck, Nat.zero_le _, fun _ _ => Nat.zero_le _⟩
      | ok _ =>
          obtain ⟨-, hall⟩ := check_eq_ok_iff.mp hcheck
          refine ⟨_, atMost_evaluate_of_check hcheck, mostDrawsOf_le_of_read hread hall, ?_⟩
          rintro _ ⟨⟩
          exact le_rfl

/-- **Bounded randomness.** Whatever the source answers, and whether the roll succeeds or fails, the
draws for a text are no more than the limits allow: half as many groups as characters, each of as
many dice as the ceiling on dice, each die drawn twice or as often as the explosion depth. A text
that can be read asks for no more than its groups do, and a rule makes no more draws for a group
than `Rule.mostDraws` says. -/
theorem draws_of_roll_le (table : Table) (input : String) {σ : Type} (source : Source σ) (s : σ)
    (record : List Draw) :
    (∃ draws : List Draw,
      table.roll source.recorded input (s, record) =
        ((table.roll source input s).1, (table.roll source input s).2, draws.reverse ++ record) ∧
      draws.length ≤ table.limits.inputLength / 2 * table.limits.dice *
        max 2 table.limits.explosionDepth ∧
      ∀ formula, Formula.read table.limits input = .ok formula →
        formula.text.length ≤ table.limits.inputLength ∧
        2 * (formula.tokens.filterMap Token.literal?).length ≤ formula.text.length ∧
        draws.length ≤ ((formula.tokens.filterMap Token.literal?).map table.mostDraws).sum) ∧
    ∀ (rule : Rule) (literal : Literal), ∃ draws : List Draw,
      rule.roll table.limits source.recorded literal (s, record) =
        ((rule.roll table.limits source literal s).1, (rule.roll table.limits source literal s).2,
          draws.reverse ++ record) ∧
      draws.length ≤ rule.mostDraws table.limits literal.dice := by
  obtain ⟨n, hroll, hlimits, hformula⟩ := table.exists_atMost_roll input
  obtain ⟨draws, hrun, hdraws⟩ := hroll σ source s record
  refine ⟨⟨draws, hrun, hdraws.trans hlimits, ?_⟩, ?_⟩
  · intro formula hread
    obtain ⟨tokens, h⟩ := Formula.read_eq_ok_iff.mp hread
    exact ⟨h.length_text_le, h.two_mul_literals_le, hdraws.trans (hformula formula hread)⟩
  · intro rule literal
    exact rule.atMost_roll table.limits literal σ source s record

/-- A pair of duality dice fills a text of two characters and draws as often as the limits allow. -/
theorem draws_of_roll_le_pair :
    ∃ draws : List Draw,
      roll ⟨.full, { inputLength := 2, dice := 1, explosionDepth := 1 }⟩ (Script.source []).recorded
          "dh" (⟨[], .highest⟩, []) =
        (.ok ⟨24, [12, 12], [], 0, "dh", [⟨0, .duality [⟨12, 12, .tie⟩]⟩]⟩, ⟨[], .highest⟩,
          draws.reverse ++ []) ∧
      draws.length = 2 / 2 * 1 * max 2 1 ∧
      draws.length ≤ Rule.mostDraws .duality { inputLength := 2, dice := 1, explosionDepth := 1 }
        (.plain .one ⟨12, by decide, by decide⟩ .duality) := by
  have hread : Formula.read
      (Table.mk .full { inputLength := 2, dice := 1, explosionDepth := 1 }).limits "dh" =
      .ok ⟨[.dice ⟨"dh", .plain .one ⟨12, by decide, by decide⟩ .duality⟩], "dh"⟩ := by
    decide +kernel
  obtain ⟨⟨draws, hrun, -, hformula⟩, -⟩ := draws_of_roll_le
    ⟨.full, { inputLength := 2, dice := 1, explosionDepth := 1 }⟩ "dh" (Script.source [])
    ⟨[], .highest⟩ []
  obtain ⟨-, -, hle⟩ := hformula _ hread
  have hroll : roll ⟨.full, { inputLength := 2, dice := 1, explosionDepth := 1 }⟩
      (Script.source []).recorded "dh" (⟨[], .highest⟩, []) =
      (.ok ⟨24, [12, 12], [], 0, "dh", [⟨0, .duality [⟨12, 12, .tie⟩]⟩]⟩, ⟨[], .highest⟩,
        [.face 12 12, .face 12 12]) := by
    rw [roll_of_read hread]
    rfl
  have hdraws : draws.reverse ++ [] = [Draw.face 12 12, .face 12 12] := by
    rw [hroll] at hrun
    exact (congrArg (·.2.2) hrun).symm
  have hlength : draws.length = 2 := by
    simpa using congrArg List.length hdraws
  exact ⟨draws, hdraws ▸ hroll, hlength, hle⟩

end Table

end DiceNotation
