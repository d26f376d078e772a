import DiceNotation.Proofs.Combine
import DiceNotation.Proofs.Evaluation
import DiceNotation.Proofs.RuleDraws

/-!
# Throws

A throw is a group of dice together with the faces that a rule drew for it. What the group comes to
is a function of its throw, and what an expression comes to is a relation between its throws and a
roll, in which no source occurs. `Expr.yields_roll` says that every evaluation is of this form, so a
fact about all rolls of all sources is proved by induction on `Expr.Settles`.
-/

namespace DiceNotation

/-- A group of dice as a rule has thrown it. Whatever the group, there is a face to show. -/
structure Throw where
  rule : Rule
  literal : Literal
  faces : List Int64
  faces_ne_nil : faces ≠ []

/-- Neighbouring faces as pairs, the primary die in front. -/
def DualityPair.ofFaces : List Int64 → List DualityPair
  | primary :: secondary :: faces => .of primary secondary :: ofFaces faces
  | _ => []

theorem DualityPair.ofFaces_flatMap_faces {pairs : List DualityPair}
    (h : ∀ pair ∈ pairs, pair = .of pair.primary pair.secondary) :
    ofFaces (pairs.flatMap faces) = pairs := by
  induction pairs with
  | nil => rfl
  | cons pair pairs ih =>
      obtain ⟨hpair, hpairs⟩ := List.forall_mem_cons.mp h
      have hrest : ofFaces (pairs.flatMap faces) = pairs := ih hpairs
      simp only [List.flatMap_cons, faces, List.cons_append, List.nil_append, ofFaces]
      rw [← hpair, hrest]

namespace Throw

/-- How many faces a die of the throw has. Fudge dice are thrown as three-sided ones. -/
def sides (t : Throw) : Int64 :=
  match t.rule with
  | .fudge => 3
  | _ => t.literal.dice.sides.toInt64

/-- What the source is asked, and what it answers. -/
def calls (t : Throw) : List Draw :=
  t.faces.map (Draw.face t.sides)

/-- What a roll shows of the faces. -/
def shown (t : Throw) : List Int64 :=
  match t.rule with
  | .fudge => t.faces.map (· - 2)
  | _ => t.faces

/-- The symbol that a face of the group stands for, if it is a faction group. -/
def symbol (t : Throw) : Int64 → FactionSymbol :=
  FactionSymbol.of (Rule.profile t.literal.dice.kind)

/-- The faces are all that the rule draws for the group, and no more. -/
def Complete (limits : Limits) (t : Throw) : Prop :=
  match t.rule with
  | .standard => ∃ chains : List (List Int64), chains.length = t.literal.dice.count.val ∧
      (∀ faces ∈ chains, Rule.IsChain t.literal.dice.sides.toInt64
        (Rule.extraDraws limits t.literal.dice) faces) ∧ t.faces = chains.flatten
  | .fudge => t.faces.length = t.literal.dice.count.val
  | .duality => t.faces.length = 2 * t.literal.dice.count.val
  | .faction => t.faces.length = t.literal.dice.count.val +
      (t.faces.take t.literal.dice.count.val).countP (t.symbol · = .crit)

/-- The roll of the group by itself. -/
def roll (t : Throw) : Roll :=
  match t.rule with
  | .standard => Rule.selected t.literal t.faces []
  | .fudge => Rule.selected t.literal (t.faces.map (· - 2)) [⟨0, .fudge⟩]
  | .duality =>
    { total := t.faces.sum, draws := t.faces, dropped := [], modifier := 0,
      label := t.literal.text, details := [⟨0, .duality (DualityPair.ofFaces t.faces)⟩] }
  | .faction =>
    { total := 0, draws := t.faces, dropped := [], modifier := 0, label := t.literal.text,
      details := [⟨0, .faction ⟨Rule.profile t.literal.dice.kind, t.faces.map t.symbol,
        t.literal.dice.count.val⟩⟩] }

theorem length_calls (t : Throw) : t.calls.length = t.shown.length := by
  unfold calls shown
  split <;> simp

theorem shown_ne_nil (t : Throw) : t.shown ≠ [] := by
  unfold shown
  split <;> simp [t.faces_ne_nil]

theorem draws_roll (t : Throw) : t.roll.draws = t.shown := by
  obtain ⟨rule, literal, faces, hfaces⟩ := t
  cases rule <;> rfl

end Throw

open Play

/-- A rule that has passed its check makes a complete throw, and rolls what the throw comes to. -/
theorem Rule.yields_roll {own : Error → Prop} {rule : Rule} {limits : Limits}
    {literal : Literal} (hcheck : rule.check limits literal.dice = .ok ()) :
    Yields (fun _ source => rule.roll limits source literal) own (fun roll draws =>
      ∃ t : Throw, t.rule = rule ∧ t.literal = literal ∧ t.Complete limits ∧ draws = t.calls ∧
        roll = t.roll) := by
  simp only [Rule.roll, hcheck, ofExcept_ok, pure_bind]
  cases rule with
  | standard =>
      refine yields_rollStandard.mono (fun _ h => h) ?_
      rintro roll draws ⟨chains, hlength, hchains, rfl, rfl⟩
      refine ⟨⟨.standard, literal, chains.flatten, ?_⟩, rfl, rfl, ?_, rfl, rfl⟩
      · -- No count is zero, so there is a first chain, and no chain is empty.
        intro hnil
        obtain ⟨faces, hfaces⟩ := List.exists_mem_of_length_pos
          (hlength ▸ literal.dice.count.pos)
        exact (hchains faces hfaces).ne_nil (List.flatten_eq_nil_iff.mp hnil faces hfaces)
      · exact ⟨chains, hlength, hchains, rfl⟩
  | fudge =>
      refine yields_rollFudge.mono (fun _ h => h) ?_
      rintro roll draws ⟨faces, hlength, rfl, rfl⟩
      refine ⟨⟨.fudge, literal, faces, ?_⟩, rfl, rfl, hlength, rfl, rfl⟩
      exact List.ne_nil_of_length_pos (hlength ▸ literal.dice.count.pos)
  | duality =>
      refine yields_rollDuality.mono (fun _ h => h) ?_
      rintro roll draws ⟨pairs, hlength, hpairs, rfl, rfl⟩
      have hfaces : (pairs.flatMap DualityPair.faces).length = 2 * literal.dice.count.val := by
        simp [List.length_flatMap, DualityPair.faces, hlength, Nat.mul_comm]
      refine ⟨⟨.duality, literal, pairs.flatMap DualityPair.faces, ?_⟩, rfl, rfl, hfaces, rfl, ?_⟩
      · have hpos := literal.dice.count.pos
        exact List.ne_nil_of_length_pos (by omega)
      · simp only [Throw.roll, DualityPair.ofFaces_flatMap_faces hpairs]
  | faction =>
      refine yields_rollFaction.mono (fun _ h => h) ?_
      rintro roll draws ⟨base, bonus, hlength, hbonus, rfl, rfl⟩
      refine ⟨⟨.faction, literal, base ++ bonus, ?_⟩, rfl, rfl, ?_, rfl, rfl⟩
      · exact List.append_ne_nil_of_left_ne_nil
          (List.ne_nil_of_length_pos (hlength ▸ literal.dice.count.pos)) bonus
      · have hbase : (base ++ bonus).take literal.dice.count.val = base := by
          rw [← hlength, List.take_left]
        simp only [Throw.Complete, hbase, List.length_append, hlength]
        exact congrArg (literal.dice.count.val + ·) hbonus

theorem Rule.check_of_roll {rule : Rule} {limits : Limits} {literal : Literal} {σ : Type}
    {source : Source σ} {s s' : σ} {roll : Roll}
    (h : rule.roll limits source literal s = (.ok roll, s')) :
    rule.check limits literal.dice = .ok () := by
  cases hcheck : rule.check limits literal.dice with
  | ok _ => rfl
  | error e =>
      simp only [Rule.roll, hcheck] at h
      cases h

/-- A group that is rolled has made a complete throw, and the record of its draws is that of the
throw. -/
theorem Rule.exists_throw_of_roll {rule : Rule} {limits : Limits} {literal : Literal} {σ : Type}
    {source : Source σ} {s s' : σ} {roll : Roll}
    (h : rule.roll limits source literal s = (.ok roll, s')) (record : List Draw) :
    ∃ t : Throw, t.rule = rule ∧ t.literal = literal ∧ t.Complete limits ∧ roll = t.roll ∧
      rule.roll limits source.recorded literal (s, record) =
        (.ok roll, s', t.calls.reverse ++ record) := by
  have hyields := @Rule.yields_roll (fun _ => False) _ _ _ (Rule.check_of_roll h)
  obtain ⟨_, ⟨t, hrule, hliteral, hcomplete, rfl, hroll⟩, hrun⟩ := hyields.exists_of_ok h record
  exact ⟨t, hrule, hliteral, hcomplete, hroll, hrun⟩

namespace Expr

/-- With these throws, one for each group in order, the expression comes to this roll. -/
inductive Settles (table : Table) : Expr → List Throw → Roll → Prop
  | number (value : Int64) : Settles table (.number value) [] (.constant value)
  | dice (t : Throw) (hrule : table.rulebook.ruleFor t.literal = .ok t.rule)
      (hcomplete : t.Complete table.limits) : Settles table (.dice t.literal) [t] t.roll
  | binary {left right : Expr} {first second : List Throw} {l r roll : Roll} {op : Operator}
      (hl : Settles table left first l) (hr : Settles table right second r)
      (hcombine : l.combine op r = .ok roll) :
      Settles table (.binary left op right) (first ++ second) roll

/-- An expression whose tokens are admitted is settled by its throws, and these are all that is
drawn; or it ends with an arithmetic error, or with the source's. -/
theorem yields_roll {table : Table} {e : Expr} (hall : ∀ t ∈ e.postOrder, table.Admits t) :
    Yields (fun _ source => e.roll table source) Error.Arithmetic (fun roll draws =>
      ∃ throws, Settles table e throws roll ∧ draws = throws.flatMap Throw.calls) := by
  induction e with
  | number value => exact yields_pure ⟨[], .number value, rfl⟩
  | dice literal =>
      have hadmits := hall (.dice literal) (List.mem_singleton_self _)
      obtain ⟨rule, hrule⟩ := Table.exists_ruleFor_of_admits hadmits
      simp only [Expr.roll, hrule, ofExcept_ok, pure_bind]
      refine (Rule.yields_roll ((Table.admits_dice_iff_check hrule).mp hadmits)).mono
        (fun _ h => h) ?_
      rintro roll draws ⟨t, rfl, rfl, hcomplete, rfl, rfl⟩
      exact ⟨[t], .dice t hrule hcomplete, by simp⟩
  | binary left op right ihl ihr =>
      -- The operator draws nothing: it only puts the throws of its sides together.
      simp only [Expr.postOrder, List.forall_mem_append] at hall
      have hcombine : ∀ l r : Roll, Yields (fun _ _ => Play.ofExcept (l.combine op r))
          Error.Arithmetic (fun roll draws => l.combine op r = .ok roll ∧ draws = []) :=
        fun l r => yields_ofExcept (fun _ => Roll.combine_error) fun _ h => ⟨h, rfl⟩
      have hroll := (ihl hall.1.1).bind fun l _ _ =>
        (ihr hall.1.2).bind fun r _ _ => hcombine l r
      refine hroll.mono (fun _ h => h) ?_
      rintro roll draws ⟨l, early, late, ⟨first, hl, rfl⟩, ⟨r, rest, last, ⟨second, hr, rfl⟩,
        ⟨hok, rfl⟩, rfl⟩, rfl⟩
      exact ⟨first ++ second, .binary hl hr hok, by simp⟩

end Expr

namespace Table

/-- What an evaluation may do once the check has passed: the throws of the formula's tree settle
it, and they are what is drawn. -/
theorem yields_settled {table : Table} {formula : Formula}
    (hcheck : table.check formula.tokens = .ok ()) :
    Yields (fun _ source => table.evaluate source formula) Error.Arithmetic
      (fun roll draws => ∃ e throws raw, e.postOrder = formula.tokens ∧
        Expr.Settles table e throws raw ∧ roll = { raw with label := formula.text } ∧
        draws = throws.flatMap Throw.calls) := by
  obtain ⟨tokens, text⟩ := formula
  obtain ⟨hreduces, hall⟩ := check_eq_ok_iff.mp hcheck
  obtain ⟨e, rfl⟩ := Expr.exists_postOrder_eq hreduces
  have hroll := (Expr.yields_roll hall).map fun roll => { roll with label := text }
  simp only [evaluate_postOrder hcheck, map_eq_pure_bind]
  refine hroll.mono (fun _ h => h) ?_
  rintro _ draws ⟨raw, ⟨throws, hsettles, rfl⟩, rfl⟩
  exact ⟨e, throws, raw, rfl, hsettles, rfl, rfl⟩

theorem exists_settles_of_evaluate {table : Table} {formula : Formula} {σ : Type}
    {source : Source σ} {s s' : σ} {roll : Roll}
    (h : table.evaluate source formula s = (.ok roll, s')) (record : List Draw) :
    ∃ e throws raw, e.postOrder = formula.tokens ∧ Expr.Settles table e throws raw ∧
      roll = { raw with label := formula.text } ∧
      table.evaluate source.recorded formula (s, record) =
        (.ok roll, s', (throws.flatMap Throw.calls).reverse ++ record) := by
  have hyields := yields_settled (check_of_evaluate h)
  obtain ⟨_, ⟨e, throws, raw, htokens, hsettles, hroll, rfl⟩, hrun⟩ :=
    hyields.exists_of_ok h record
  exact ⟨e, throws, raw, htokens, hsettles, hroll, hrun⟩

end Table

end DiceNotation
