import Redstone.StepRuns

/-!
# Loops over an environment's answers

Each round of a loop asks its environment once and either goes on or ends with a result.
The answers are a sequence fixed in advance, so a round is a function of the state and of
one answer. Some answers are idle: they make the loop ask again. If the others are never
exhausted and each of them ends the loop or lowers a measure, the loop ends.
-/

namespace RetryLoops

open StepRuns

universe u v w
variable {σ : Type u} {α : Type v} {ρ : Type w}

inductive Round (σ : Type u) (ρ : Type w) where
  | continues (s : σ)
  | ends (result : ρ)

/-- The loop from round `i` on, none if the fuel runs out. -/
def loop (round : σ → α → Round σ ρ) (answers : Nat → α) :
    (fuel i : Nat) → σ → Option ρ
  | 0, _, _ => none
  | fuel + 1, i, s =>
    match round s (answers i) with
    | .ends result => some result
    | .continues s => loop round answers fuel (i + 1) s

/-- There is always a later answer that is not idle. -/
def Fair (idle : α → Prop) (answers : Nat → α) : Prop := ∀ i, ∃ j, i ≤ j ∧ ¬idle (answers j)

/-- A round goes on to a state of one kind or ends with a result of one kind. -/
def Round.Ensures (next : σ → Prop) (last : ρ → Prop) : Round σ ρ → Prop
  | continues s => next s
  | ends result => last result

theorem Round.Ensures.mono {next next' : σ → Prop} {last : ρ → Prop} {round : Round σ ρ}
    (ensures : round.Ensures next last) (weaker : ∀ s, next s → next' s) :
    round.Ensures next' last := by
  cases round with
  | continues s => exact weaker s ensures
  | ends result => exact ensures

variable {round : σ → α → Round σ ρ} {answers : Nat → α}

/-- Partial correctness, by an invariant of the state and of the number of answers. -/
theorem loop_result {Inv : Nat → σ → Prop} {Post : ρ → Prop}
    (spec : ∀ i s, Inv i s → (round s (answers i)).Ensures (Inv (i + 1)) Post) {fuel i : Nat}
    {s : σ} {r : ρ} (start : Inv i s) (ended : loop round answers fuel i s = some r) :
    Post r := by
  induction fuel generalizing i s with
  | zero => cases ended
  | succ fuel ih =>
    have here := spec i s start
    rw [loop] at ended
    cases taken : round s (answers i) with
    | ends result =>
      rw [taken] at ended here
      exact Option.some.inj ended ▸ here
    | continues s' =>
      rw [taken] at ended here
      exact ih here ended

theorem ends_last {i : Nat} {s : σ} {r : ρ} (taken : round s (answers i) = .ends r) :
    Ends (fun fuel => loop round answers fuel i s) r := by
  refine @ends_round _ _ (fun _ => some r) r rfl (fun fuel => ?_) (ends_always r)
  simp only [loop, taken]

theorem ends_continues {i : Nat} {s s' : σ} {r : ρ}
    (taken : round s (answers i) = .continues s')
    (rest : Ends (fun fuel => loop round answers fuel (i + 1) s') r) :
    Ends (fun fuel => loop round answers fuel i s) r := by
  refine ends_round rfl (fun fuel => ?_) rest
  simp only [loop, taken]

/-- The step of total correctness: the invariant is kept, the measure does not grow, and
it falls at each answer that is not idle. -/
def Advances (idle : α → Prop) (answers : Nat → α) (Inv : Nat → σ → Prop) (measure : σ → Nat)
    (i : Nat) (s s' : σ) : Prop :=
  Inv (i + 1) s' ∧ measure s' ≤ measure s ∧ (¬idle (answers i) → measure s' < measure s)

theorem loop_ends {Inv : Nat → σ → Prop} {Post : ρ → Prop} {idle : α → Prop}
    {measure : σ → Nat} (fair : Fair idle answers)
    (spec : ∀ i s, Inv i s →
      (round s (answers i)).Ensures (Advances idle answers Inv measure i s) Post)
    {i : Nat} {s : σ} (start : Inv i s) :
    ∃ r, Ends (fun fuel => loop round answers fuel i s) r := by
  -- outer induction on the measure, inner one on the distance to the next useful answer
  induction size : measure s using Nat.strongRecOn generalizing i s with
  | ind size smaller =>
    obtain ⟨j, later, useful⟩ := fair i
    obtain ⟨wait, rfl⟩ := Nat.exists_eq_add_of_le later
    induction wait generalizing i s with
    | zero =>
      have here := spec i s start
      cases taken : round s (answers i) with
      | ends r => exact ⟨r, ends_last taken⟩
      | continues s' =>
        rw [taken] at here
        obtain ⟨kept, _, less⟩ := here
        obtain ⟨r, rest⟩ := smaller (measure s') (size ▸ less useful) kept rfl
        exact ⟨r, ends_continues taken rest⟩
    | succ wait ih =>
      have here := spec i s start
      cases taken : round s (answers i) with
      | ends r => exact ⟨r, ends_last taken⟩
      | continues s' =>
        rw [taken] at here
        obtain ⟨kept, atMost, _⟩ := here
        rcases Nat.lt_or_eq_of_le atMost with less | same
        · obtain ⟨r, rest⟩ := smaller (measure s') (size ▸ less) kept rfl
          exact ⟨r, ends_continues taken rest⟩
        · have shifted : i + 1 + wait = i + (wait + 1) := by omega
          obtain ⟨r, rest⟩ := ih kept (same.trans size) (by omega) (by rw [shifted]; exact useful)
          exact ⟨r, ends_continues taken rest⟩

/-- Total correctness. -/
theorem loop_total {Inv : Nat → σ → Prop} {Post : ρ → Prop} {idle : α → Prop}
    {measure : σ → Nat} (fair : Fair idle answers)
    (spec : ∀ i s, Inv i s →
      (round s (answers i)).Ensures (Advances idle answers Inv measure i s) Post)
    {i : Nat} {s : σ} (start : Inv i s) :
    ∃ r, Ends (fun fuel => loop round answers fuel i s) r ∧ Post r := by
  obtain ⟨r, ends⟩ := loop_ends fair spec start
  obtain ⟨fuel, ended⟩ := ends_some ends
  refine ⟨r, ends, loop_result (fun i s here => ?_) start ended⟩
  exact (spec i s here).mono fun _ advances => advances.1

end RetryLoops
