import DiceNotation.Proofs.Accounting

/-!
# Refusals

A request is refused before anything is drawn, or it is not refused at all: behind the check only
arithmetic and the source can fail. Refused requests therefore leave no trace among the requests
around them.
-/

namespace DiceNotation

/-- What a table can be asked for: a text, or a formula that has been read before. -/
inductive Request where
  | text (input : String)
  | formula (formula : Formula)
deriving DecidableEq

def Request.read (limits : Limits) : Request → Except Error Formula
  | text input => Formula.read limits input
  | formula known => .ok known

/-- What came of a request, with its draws in order. -/
structure Answer where
  request : Request
  result : Except Error Roll
  draws : List Draw

namespace Table

open Play

variable {σ : Type}

/-- What there is to say against a request before it is rolled. -/
def screen (table : Table) (request : Request) : Except Error Unit := do
  let formula ← request.read table.limits
  table.check formula.tokens

def accepts (table : Table) (request : Request) : Bool :=
  (table.screen request).isOk

def answer (table : Table) (source : Source σ) : Request → Play σ Roll
  | .text input => table.roll source input
  | .formula known => table.evaluate source known

/-- The answers to requests that are made one after the other, and the state after them. -/
def answers (table : Table) (source : Source σ) : List Request → σ → List Answer × σ
  | [], s => ([], s)
  | request :: requests, s =>
    let (result, after) := table.answer source request s
    let record := (table.answer source.recorded request (s, [])).2.2
    let (others, last) := table.answers source requests after
    (⟨request, result, record.reverse⟩ :: others, last)

theorem answer_of_screen_eq_error {table : Table} {request : Request} {e : Error}
    (h : table.screen request = .error e) (source : Source σ) (s : σ) :
    table.answer source request s = (.error e, s) := by
  cases request with
  | formula formula => exact evaluate_of_check_error h source s
  | text input =>
      rw [answer, roll, bind_apply]
      rcases bind_eq_error_iff.mp h with hread | ⟨formula, hread, hcheck⟩
      · simp only [Request.read] at hread
        rw [hread]
        rfl
      · simp only [Request.read] at hread
        rw [hread]
        exact evaluate_of_check_error hcheck source s

theorem answers_filter_accepts (table : Table) (source : Source σ) (requests : List Request) :
    ∀ s : σ, table.answers source (requests.filter table.accepts) s =
      ((table.answers source requests s).1.filter (table.accepts ·.request),
        (table.answers source requests s).2) := by
  induction requests with
  | nil => intro s; rfl
  | cons request requests ih =>
      intro s
      cases hscreen : table.screen request with
      | ok _ =>
          have haccepts : table.accepts request = true := by rw [accepts, hscreen]; rfl
          rcases hanswer : table.answer source request s with ⟨result, after⟩
          simp only [List.filter_cons, haccepts, if_true, answers, hanswer, ih]
      | error e =>
          -- The state behind a refused request is the state before it.
          have haccepts : table.accepts request = false := by rw [accepts, hscreen]; rfl
          have hanswer := answer_of_screen_eq_error hscreen source s
          simp only [List.filter_cons, haccepts, Bool.false_eq_true, if_false, answers, hanswer,
            ih]

/-- **Failing fast.** A formula is refused for its first fault. A failed evaluation has refused the
formula and drawn nothing; or it has passed the check, and an operator fails after draws that were
all answered, or the last draw is the source's failure. Deleting the refused requests from a
sequence changes neither the answers nor the draws of the others, nor the state after them. -/
theorem evaluate_atomic (table : Table) :
    (∀ tokens e, table.check tokens = .error e ↔ table.FirstFault 0 tokens e) ∧
    (∀ {σ : Type} (source : Source σ) (formula : Formula) (s s' : σ) (e : Error)
        (record : List Draw), table.evaluate source formula s = (.error e, s') →
      (table.FirstFault 0 formula.tokens e ∧ s' = s ∧
        table.evaluate source.recorded formula (s, record) = (.error e, s, record)) ∨
      (table.check formula.tokens = .ok () ∧ ∃ draws : List Draw,
        table.evaluate source.recorded formula (s, record) =
          (.error e, s', draws.reverse ++ record) ∧
        (((∀ d ∈ draws, d.Answered) ∧ (e = .zeroDivision ∨ e = .overflow)) ∨
          ∃ earlier sides, draws = earlier ++ [⟨sides, .error e⟩] ∧
            ∀ d ∈ earlier, d.Answered))) ∧
    ∀ {σ : Type} (source : Source σ) (s : σ),
      (∀ request e, table.screen request = .error e → ∀ record,
        table.answer source.recorded request (s, record) = (.error e, s, record)) ∧
      ∀ requests, table.answers source (requests.filter table.accepts) s =
        ((table.answers source requests s).1.filter (table.accepts ·.request),
          (table.answers source requests s).2) := by
  refine ⟨fun tokens e => check_eq_error_iff, ?_, ?_⟩
  · intro σ source formula s s' e record h
    cases hcheck : table.check formula.tokens with
    | error cause =>
        rw [evaluate_of_check_error hcheck] at h
        cases h
        exact .inl ⟨check_eq_error_iff.mp hcheck, rfl,
          evaluate_of_check_error hcheck source.recorded (s, record)⟩
    | ok _ =>
        -- Whatever fails now has an operator or the source to blame.
        obtain ⟨draws, hrun, hends⟩ := yields_evaluate hcheck σ source s record
        simp only [h] at hrun hends
        refine .inr ⟨rfl, draws, hrun, ?_⟩
        cases hends with
        | refused hall hown => exact .inl ⟨hall, hown⟩
        | failed hall => exact .inr ⟨_, _, rfl, hall⟩
  · intro σ source s
    refine ⟨?_, fun requests => answers_filter_accepts table source requests s⟩
    intro request e hscreen record
    exact answer_of_screen_eq_error hscreen source.recorded (s, record)

/-- `1d6 / 0` has drawn its die when it fails. -/
theorem evaluate_atomic_division :
    ∃ draws : List Draw, Table.evaluate {} (Script.source []).recorded
        ⟨[.dice ⟨"1d6", .plain .one ⟨6, by decide, by decide⟩ .standard⟩, .number 0,
          .operator .div], "1d6 / 0"⟩ (⟨[4], .error⟩, []) =
      (.error .zeroDivision, ⟨[], .error⟩, draws.reverse ++ []) := by
  rcases (evaluate_atomic {}).2.1 (Script.source [])
    ⟨[.dice ⟨"1d6", .plain .one ⟨6, by decide, by decide⟩ .standard⟩, .number 0,
      .operator .div], "1d6 / 0"⟩ ⟨[4], .error⟩ ⟨[], .error⟩ .zeroDivision [] (by rfl)
    with ⟨-, hstate, -⟩ | ⟨-, draws, hrun, -⟩
  · cases hstate
  · exact ⟨draws, hrun⟩

end Table

end DiceNotation
