import DiceNotation.Source.Basic
import Mathlib.Data.List.Basic

/-!
# Draws of a computation

A computation that can be run over any source is specified by what it draws. `Play.Draws` compares
the plain run with the recorded one and speaks of the draws between them; `Play.Ends` says how the
draws and the result belong together. Every statement about draws in this library is about the
record of `Source.recorded`.
-/

namespace DiceNotation

/-- The source gave a face. -/
def Draw.Answered (draw : Draw) : Prop :=
  ∃ face, draw.answer = .ok face

/-- The draw in which the source gave this face. -/
def Draw.face (sides face : Int64) : Draw :=
  ⟨sides, .ok face⟩

namespace Play

/-- A computation that can be run over any source. -/
abbrev Uniform (α : Type) :=
  (σ : Type) → Source σ → Play σ α

variable {α β : Type}

/-- Whatever the source, recording the draws of `play` changes neither its result nor the state
after it, and `post` holds of the result and the draws in order. -/
def Draws (play : Uniform α) (post : Except Error α → List Draw → Prop) : Prop :=
  ∀ (σ : Type) (source : Source σ) (s : σ) (record : List Draw), ∃ draws : List Draw,
    play _ source.recorded (s, record) =
      ((play _ source s).1, (play _ source s).2, draws.reverse ++ record) ∧
    post (play _ source s).1 draws

/-- One computation after the other: the second one runs only if the first one has a value. -/
def Then (P : Except Error α → List Draw → Prop)
    (Q : α → Except Error β → List Draw → Prop) (result : Except Error β)
    (draws : List Draw) : Prop :=
  (∃ e, result = .error e ∧ P (.error e) draws) ∨
  ∃ a first second, P (.ok a) first ∧ Q a result second ∧ draws = first ++ second

theorem Draws.mono {play : Uniform α} {P Q : Except Error α → List Draw → Prop}
    (h : Draws play P) (hPQ : ∀ result draws, P result draws → Q result draws) :
    Draws play Q := by
  intro σ source s record
  obtain ⟨draws, hrun, hpost⟩ := h σ source s record
  exact ⟨draws, hrun, hPQ _ _ hpost⟩

theorem draws_ofExcept (result : Except Error α) :
    Draws (fun _ _ => ofExcept result) (fun r draws => r = result ∧ draws = []) := by
  intro σ source s record
  exact ⟨[], rfl, rfl, rfl⟩

theorem draws_face (sides : Int64) :
    Draws (fun _ source => source.face sides) (fun r draws => draws = [⟨sides, r⟩]) := by
  intro σ source s record
  exact ⟨[⟨sides, (source.draw sides s).1⟩], rfl, rfl⟩

theorem Draws.bind {p : Uniform α} {q : α → Uniform β}
    {P : Except Error α → List Draw → Prop} {Q : α → Except Error β → List Draw → Prop}
    (hp : Draws p P) (hq : ∀ a draws, P (.ok a) draws → Draws (q a) (Q a)) :
    Draws (fun _ source => p _ source >>= fun a => q a _ source) (Then P Q) := by
  intro σ source s record
  obtain ⟨first, hrun, hP⟩ := hp σ source s record
  simp only [bind_apply, hrun]
  rcases hplain : p σ source s with ⟨result, t⟩
  rw [hplain] at hP
  cases result with
  | error e => exact ⟨first, rfl, .inl ⟨e, rfl, hP⟩⟩
  | ok a =>
      -- The record that the second computation starts with ends in the draws of the first one.
      obtain ⟨second, hnext, hQ⟩ := hq a first hP σ source t (first.reverse ++ record)
      refine ⟨first ++ second, ?_, .inr ⟨a, first, second, hP, hQ, rfl⟩⟩
      simpa using hnext

/-- How draws and result belong together: the source answered every draw, and the computation has a
value or gives up with an error of its own; or the source failed, and its error is the result. -/
inductive Ends (own : Error → Prop) (post : α → List Draw → Prop) :
    Except Error α → List Draw → Prop
  | value {a : α} {draws : List Draw} (hall : ∀ d ∈ draws, d.Answered) (h : post a draws) :
      Ends own post (.ok a) draws
  | refused {e : Error} {draws : List Draw} (hall : ∀ d ∈ draws, d.Answered) (h : own e) :
      Ends own post (.error e) draws
  | failed {sides : Int64} {e : Error} {draws : List Draw} (hall : ∀ d ∈ draws, d.Answered) :
      Ends own post (.error e) (draws ++ [⟨sides, .error e⟩])

/-- The computation ends so, whatever the source. -/
abbrev Yields (play : Uniform α) (own : Error → Prop) (post : α → List Draw → Prop) : Prop :=
  Draws play (Ends own post)

section Yields

variable {own own' : Error → Prop} {P P' : α → List Draw → Prop} {Q : α → β → List Draw → Prop}
  {p : Uniform α} {q : α → Uniform β}

theorem Ends.append {first second : List Draw} {result : Except Error β} {R : β → List Draw → Prop}
    (hall : ∀ d ∈ first, d.Answered) (h : Ends own R result second) :
    Ends own (fun b draws => ∃ rest, R b rest ∧ draws = first ++ rest) result
      (first ++ second) := by
  cases h with
  | value hall' h =>
      exact .value (List.forall_mem_append.mpr ⟨hall, hall'⟩) ⟨second, h, rfl⟩
  | refused hall' h => exact .refused (List.forall_mem_append.mpr ⟨hall, hall'⟩) h
  | failed hall' =>
      rw [← List.append_assoc]
      exact .failed (List.forall_mem_append.mpr ⟨hall, hall'⟩)

theorem Ends.mono {result : Except Error α} {draws : List Draw} (h : Ends own P result draws)
    (hown : ∀ e, own e → own' e) (hP : ∀ a draws, P a draws → P' a draws) :
    Ends own' P' result draws := by
  cases h with
  | value hall h => exact .value hall (hP _ _ h)
  | refused hall h => exact .refused hall (hown _ h)
  | failed hall => exact .failed hall

theorem Yields.mono (h : Yields p own P) (hown : ∀ e, own e → own' e)
    (hP : ∀ a draws, P a draws → P' a draws) : Yields p own' P' :=
  Draws.mono h fun _ _ hends => hends.mono hown hP

theorem yields_ofExcept {result : Except Error α} (herror : ∀ e, result = .error e → own e)
    (hok : ∀ a, result = .ok a → P a []) : Yields (fun _ _ => ofExcept result) own P := by
  refine (draws_ofExcept result).mono ?_
  rintro r draws ⟨rfl, rfl⟩
  cases r with
  | error e => exact .refused (by simp) (herror e rfl)
  | ok a => exact .value (by simp) (hok a rfl)

theorem yields_pure {a : α} (h : P a []) : Yields (fun _ _ => pure a) own P := by
  refine @yields_ofExcept _ _ _ (.ok a) ?_ ?_
  · rintro e ⟨⟩
  · rintro _ ⟨⟩
    exact h

theorem yields_face (sides : Int64) :
    Yields (fun _ source => source.face sides) own
      (fun face draws => draws = [Draw.face sides face]) := by
  refine (draws_face sides).mono ?_
  rintro (e | face) _ rfl
  · exact @Ends.failed _ _ _ sides e [] (by simp)
  · exact .value (by simp [Draw.Answered]) rfl

theorem Yields.bind (hp : Yields p own P)
    (hq : ∀ a draws, P a draws → Yields (q a) own (Q a)) :
    Yields (fun _ source => p _ source >>= fun a => q a _ source) own
      (fun b draws => ∃ a first second, P a first ∧ Q a b second ∧ draws = first ++ second) := by
  have hnext : ∀ a draws, Ends own P (.ok a) draws → Yields (q a) own (Q a) := by
    rintro a draws (⟨-, h⟩)
    exact hq a draws h
  refine (Draws.bind hp hnext).mono ?_
  rintro result draws (⟨e, rfl, h⟩ | ⟨a, first, second, h, hQ, rfl⟩)
  · cases h with
    | refused hall h => exact .refused hall h
    | failed hall => exact .failed hall
  · cases h with
    | value hall h =>
        refine (hQ.append hall).mono (fun _ h => h) ?_
        rintro b draws ⟨rest, hb, rfl⟩
        exact ⟨a, first, rest, h, hb, rfl⟩

theorem Yields.map (hp : Yields p own P) (f : α → β) :
    Yields (fun _ source => p _ source >>= fun a => pure (f a)) own
      (fun b draws => ∃ a, P a draws ∧ b = f a) := by
  have hbind := Yields.bind hp fun a _ _ =>
    yields_pure (P := fun b draws => b = f a ∧ draws = []) ⟨rfl, rfl⟩
  refine hbind.mono (fun _ h => h) ?_
  rintro b draws ⟨a, first, second, ha, ⟨rfl, rfl⟩, rfl⟩
  exact ⟨a, by simpa using ha, rfl⟩

/-- What is known of a run that has a value, and the record of it. -/
theorem Yields.exists_of_ok (hp : Yields p own P) {σ : Type} {source : Source σ} {s s' : σ} {a : α}
    (h : p σ source s = (.ok a, s')) (record : List Draw) :
    ∃ draws, P a draws ∧
      p _ source.recorded (s, record) = (.ok a, s', draws.reverse ++ record) := by
  obtain ⟨draws, hrun, hends⟩ := hp σ source s record
  rw [h] at hrun hends
  cases hends with
  | value _ hpost => exact ⟨draws, hpost, hrun⟩

/-- The values and the draws of `n` runs in a row, of each of which `post` holds. -/
def Runs (post : α → List Draw → Prop) (n : Nat) (values : List α) (draws : List Draw) : Prop :=
  ∃ runs : List (α × List Draw), runs.length = n ∧ values = runs.map (·.1) ∧
    draws = runs.flatMap (·.2) ∧ ∀ run ∈ runs, post run.1 run.2

theorem Runs.length_eq {n : Nat} {values : List α} {draws : List Draw}
    (h : Runs P n values draws) : values.length = n := by
  obtain ⟨runs, rfl, rfl, -, -⟩ := h
  simp

theorem Runs.ne_nil {n : Nat} {values : List α} {draws : List Draw}
    (h : Runs P n values draws) (hn : 0 < n) : values ≠ [] := by
  rw [← h.length_eq] at hn
  exact List.ne_nil_of_length_pos hn

theorem Runs.forall_mem {n : Nat} {values : List α} {draws : List Draw} {R : α → Prop}
    (h : Runs P n values draws) (hR : ∀ a draws, P a draws → R a) : ∀ a ∈ values, R a := by
  obtain ⟨runs, -, rfl, -, hruns⟩ := h
  intro a ha
  obtain ⟨run, hrun, rfl⟩ := List.mem_map.mp ha
  exact hR _ _ (hruns run hrun)

theorem Runs.draws_eq {n : Nat} {values : List α} {draws : List Draw} {f : α → List Draw}
    (h : Runs P n values draws) (hf : ∀ a draws, P a draws → draws = f a) :
    draws = values.flatMap f := by
  obtain ⟨runs, -, rfl, rfl, hruns⟩ := h
  rw [List.flatMap_map]
  exact List.flatMap_congr fun run hrun => hf _ _ (hruns run hrun)

theorem Yields.times (hp : Yields p own P) (n : Nat) :
    Yields (fun _ source => times n (p _ source)) own (Runs P n) := by
  induction n with
  | zero => exact yields_pure ⟨[], rfl, rfl, rfl, by simp⟩
  | succ n ih =>
      have hstep := Yields.bind hp fun a _ _ => ih.map (a :: ·)
      refine hstep.mono (fun _ h => h) ?_
      rintro values draws ⟨a, first, second, ha, ⟨others, hothers, rfl⟩, rfl⟩
      obtain ⟨runs, rfl, rfl, rfl, hruns⟩ := hothers
      exact ⟨(a, first) :: runs, rfl, rfl, by simp,
        List.forall_mem_cons.mpr ⟨ha, hruns⟩⟩

theorem yields_times_face (n : Nat) (sides : Int64) :
    Yields (fun _ source => times n (source.face sides)) own
      (fun faces draws => faces.length = n ∧ draws = faces.map (Draw.face sides)) := by
  refine ((yields_face sides).times n).mono (fun _ h => h) ?_
  intro faces draws hruns
  refine ⟨hruns.length_eq, ?_⟩
  rw [hruns.draws_eq fun _ _ h => h, List.map_eq_flatMap]

end Yields

end Play

end DiceNotation
