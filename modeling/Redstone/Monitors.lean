import Mathlib.Data.Set.Card
import Mathlib.Logic.Function.Basic
import Redstone.StepRuns

/-!
# Monitors

Threads share a state that one lock guards and wait on one condition variable. What a
thread does between getting the lock and giving it up, by leaving or by waiting, is one
step. A notified thread does not run at once: any thread may take the lock first.
Wakeups without a notification, spurious ones or time-outs, are always possible.
-/

namespace Monitors

open StepRuns Function

universe u
variable {τ α σ ρ κ : Type u}

/-- `κ` is what a waiting call remembers. A woken call waits for the lock. -/
inductive Status (κ : Type u) where
  | outside
  | asleep (k : κ)
  | woken (k : κ)

namespace Status

/-- The call in progress, if there is one. -/
def blocked : Status κ → Option κ
  | .outside => none
  | .asleep k => some k
  | .woken k => some k

def rouse : Status κ → Status κ
  | .asleep k => .woken k
  | status => status

theorem blocked_rouse (status : Status κ) : status.rouse.blocked = status.blocked := by
  cases status <;> rfl

theorem rouse_ne_asleep (status : Status κ) (k : κ) : status.rouse ≠ .asleep k := by
  cases status <;> simp [rouse]

end Status

inductive Signal where
  | none
  | one
  | all

/-- How a thread gives the lock up: its call returns, or it waits. -/
inductive Next (ρ κ : Type u) where
  | leaves (result : ρ)
  | waits (k : κ)

def Next.status : Next ρ κ → Status κ
  | .leaves _ => .outside
  | .waits k => .asleep k

structure Outcome (σ ρ κ : Type u) where
  shared : σ
  signal : Signal
  next : Next ρ κ

/-- The sections of a program: a call from its beginning, and a waiting call that has the
lock again. -/
structure Program (α σ ρ κ : Type u) where
  enter : α → σ → Outcome σ ρ κ → Prop
  resume : κ → σ → Outcome σ ρ κ → Prop

structure Monitor (τ σ κ : Type u) where
  shared : σ
  status : τ → Status κ

def idle (shared : σ) : Monitor τ σ κ := ⟨shared, fun _ => .outside⟩

inductive Event (τ α ρ κ : Type u) where
  | enter (t : τ) (call : α) (next : Next ρ κ)
  | resume (t : τ) (k : κ) (next : Next ρ κ)
  | wake (t : τ)

section
variable [DecidableEq τ]

/-- What a notification does to the threads that wait. -/
inductive Notified : Signal → (τ → Status κ) → (τ → Status κ) → Prop where
  | none {status : τ → Status κ} : Notified .none status status
  | all {status : τ → Status κ} : Notified .all status fun t => (status t).rouse
  | one {status : τ → Status κ} (t : τ) (k : κ) (waiting : status t = .asleep k) :
      Notified .one status (update status t (.woken k))
  | nobody {status : τ → Status κ} (empty : ∀ t k, status t ≠ .asleep k) :
      Notified .one status status

inductive Step (P : Program α σ ρ κ) (m : Monitor τ σ κ) :
    Event τ α ρ κ → Monitor τ σ κ → Prop where
  | enter {t : τ} {call : α} {out : Outcome σ ρ κ} {status : τ → Status κ}
      (free : m.status t = .outside) (runs : P.enter call m.shared out)
      (notified : Notified out.signal m.status status) :
      Step P m (.enter t call out.next) ⟨out.shared, update status t out.next.status⟩
  | resume {t : τ} {k : κ} {out : Outcome σ ρ κ} {status : τ → Status κ}
      (woken : m.status t = .woken k) (runs : P.resume k m.shared out)
      (notified : Notified out.signal m.status status) :
      Step P m (.resume t k out.next) ⟨out.shared, update status t out.next.status⟩
  | wake {t : τ} {k : κ} (asleep : m.status t = .asleep k) :
      Step P m (.wake t) ⟨m.shared, update m.status t (.woken k)⟩

theorem Step.enters {P : Program α σ ρ κ} {m : Monitor τ σ κ} {t : τ} {call : α} {shared : σ}
    {signal : Signal} {next : Next ρ κ} {status : τ → Status κ} (free : m.status t = .outside)
    (runs : P.enter call m.shared ⟨shared, signal, next⟩)
    (notified : Notified signal m.status status) :
    Step P m (.enter t call next) ⟨shared, update status t next.status⟩ :=
  .enter free runs notified

theorem Step.resumes {P : Program α σ ρ κ} {m : Monitor τ σ κ} {t : τ} {k : κ} {shared : σ}
    {signal : Signal} {next : Next ρ κ} {status : τ → Status κ} (woken : m.status t = .woken k)
    (runs : P.resume k m.shared ⟨shared, signal, next⟩)
    (notified : Notified signal m.status status) :
    Step P m (.resume t k next) ⟨shared, update status t next.status⟩ :=
  .resume woken runs notified

/-! ## Who is blocked -/

theorem blocked_wake {status : τ → Status κ} {t : τ} {k : κ} (asleep : status t = .asleep k)
    (u : τ) : (update status t (.woken k) u).blocked = (status u).blocked := by
  by_cases here : u = t
  · rw [here, update_self, asleep]
    rfl
  · rw [update_of_ne here]

/-- A notification lets nobody out and nobody in. -/
theorem blocked_notified {signal : Signal} {status status' : τ → Status κ}
    (notified : Notified signal status status') (t : τ) :
    (status' t).blocked = (status t).blocked := by
  cases notified with
  | none => rfl
  | nobody => rfl
  | all => exact (status t).blocked_rouse
  | one u k waiting => exact blocked_wake waiting t

/-- After a notification of all, everybody who is blocked is woken. -/
theorem asleep_notified {signal : Signal} {status status' : τ → Status κ}
    (notified : Notified signal status status') {t : τ} {k : κ}
    (asleep : status' t = .asleep k) : status t = .asleep k ∧ signal ≠ .all := by
  cases notified with
  | none => exact ⟨asleep, Signal.noConfusion⟩
  | nobody => exact ⟨asleep, Signal.noConfusion⟩
  | all => exact absurd asleep ((status t).rouse_ne_asleep k)
  | one u k waiting =>
    by_cases here : t = u
    · rw [here, update_self] at asleep
      cases asleep
    · rw [update_of_ne here] at asleep
      exact ⟨asleep, Signal.noConfusion⟩

/-- A notification of one wakes the only sleeper. -/
theorem sole_notified {status status' : τ → Status κ} (notified : Notified .one status status')
    {w : τ} (sole : ∀ t k, status t = .asleep k → t = w) (t : τ) (k : κ) :
    status' t ≠ .asleep k := by
  intro asleep
  cases notified with
  | nobody empty => exact empty t k asleep
  | one u k' waiting =>
    by_cases here : t = u
    · rw [here, update_self] at asleep
      cases asleep
    · rw [update_of_ne here] at asleep
      exact here ((sole t k asleep).trans (sole u k' waiting).symm)

/-- What the section of a thread leaves of the others' statuses. -/
theorem blocked_section {signal : Signal} {status status' : τ → Status κ} {next : Next ρ κ}
    (notified : Notified signal status status') (t u : τ) :
    (update status' t next.status u).blocked =
      if u = t then next.status.blocked else (status u).blocked := by
  by_cases here : u = t
  · rw [here, update_self, if_pos rfl]
  · rw [update_of_ne here, if_neg here, blocked_notified notified]

/-! ## No lost wakeup -/

/-- `out` is what some section of the program does in the state `s`. -/
def Program.Runs (P : Program α σ ρ κ) (s : σ) (out : Outcome σ ρ κ) : Prop :=
  (∃ call, P.enter call s out) ∨ ∃ k, P.resume k s out

/-- Every sleeper may go on sleeping. -/
def Sound (Safe : κ → σ → Prop) (m : Monitor τ σ κ) : Prop :=
  ∀ t k, m.status t = .asleep k → Safe k m.shared

variable {P : Program α σ ρ κ} {Safe : κ → σ → Prop}

omit [DecidableEq τ] in
theorem sound_idle (s : σ) : Sound (τ := τ) Safe (idle s) := by
  intro t k asleep
  cases asleep

/-- A thread goes to sleep only when it may, and a section that makes it unsafe to sleep
notifies: everybody, or the one thread `w` that can be asleep. -/
theorem sound_section {s : σ} {status status' : τ → Status κ} {t : τ} {out : Outcome σ ρ κ}
    (sleeps : ∀ k, out.next = .waits k → Safe k out.shared)
    (quiet : out.signal = .none → ∀ k, Safe k s → Safe k out.shared)
    (single : out.signal = .one → ∃ w, ∀ u k, status u = .asleep k → u = w)
    (notified : Notified out.signal status status') (sound : Sound Safe ⟨s, status⟩) :
    Sound Safe ⟨out.shared, update status' t out.next.status⟩ := by
  obtain ⟨shared, signal, next⟩ := out
  intro u k asleep
  by_cases here : u = t
  · simp only [here, update_self] at asleep
    cases next with
    | leaves result => cases asleep
    | waits k' =>
      cases asleep
      exact sleeps k rfl
  · simp only [update_of_ne here] at asleep
    obtain ⟨before, notAll⟩ := asleep_notified notified asleep
    cases signal with
    | none => exact quiet rfl k (sound u k before)
    | all => exact absurd rfl notAll
    | one =>
      obtain ⟨w, sole⟩ := single rfl
      exact absurd asleep (sole_notified notified sole u k)

theorem sound_wake {m : Monitor τ σ κ} {t : τ} {k : κ} (sound : Sound Safe m) :
    Sound Safe ⟨m.shared, update m.status t (.woken k)⟩ := by
  intro u k' asleep
  by_cases here : u = t
  · simp only [here, update_self] at asleep
    cases asleep
  · simp only [update_of_ne here] at asleep
    exact sound u k' asleep

/-- The rule for a whole step. -/
theorem sound_step {m m' : Monitor τ σ κ} {e : Event τ α ρ κ}
    (sleeps : ∀ out k, P.Runs m.shared out → out.next = .waits k → Safe k out.shared)
    (quiet : ∀ out k, P.Runs m.shared out → out.signal = .none → Safe k m.shared →
      Safe k out.shared)
    (single : ∀ out, P.Runs m.shared out → out.signal = .one →
      ∃ w, ∀ u k, m.status u = .asleep k → u = w)
    (step : Step P m e m') (sound : Sound Safe m) : Sound Safe m' := by
  cases step with
  | enter free runs notified =>
    have ran : P.Runs m.shared _ := Or.inl ⟨_, runs⟩
    exact sound_section (fun k => sleeps _ k ran) (fun silent k => quiet _ k ran silent)
      (single _ ran) notified sound
  | resume woken runs notified =>
    have ran : P.Runs m.shared _ := Or.inr ⟨_, runs⟩
    exact sound_section (fun k => sleeps _ k ran) (fun silent k => quiet _ k ran silent)
      (single _ ran) notified sound
  | wake asleep => exact sound_wake sound

/-! ## Runs that grant the lock -/

/-- Nobody but the thread itself ends its wait for the lock. -/
theorem woken_notified {signal : Signal} {status status' : τ → Status κ}
    (notified : Notified signal status status') {t : τ} {k : κ} (woken : status t = .woken k) :
    status' t = .woken k := by
  cases notified with
  | none => exact woken
  | nobody => exact woken
  | all =>
    change (status t).rouse = _
    rw [woken]
    rfl
  | one u k' waiting =>
    by_cases here : t = u
    · rw [← here, woken] at waiting
      cases waiting
    · rw [update_of_ne here, woken]

theorem woken_step {m m' : Monitor τ σ κ} {e : Event τ α ρ κ} (step : Step P m e m') {t : τ}
    {k : κ} (woken : m.status t = .woken k) :
    (∃ next, e = .resume t k next) ∨ m'.status t = .woken k := by
  cases step with
  | @enter u call out status free runs notified =>
    have other : t ≠ u := by
      rintro rfl
      cases free.symm.trans woken
    exact Or.inr ((update_of_ne other _ _).trans (woken_notified notified woken))
  | @resume u k' out status resumes runs notified =>
    by_cases here : t = u
    · subst here
      cases resumes.symm.trans woken
      exact Or.inl ⟨out.next, rfl⟩
    · exact Or.inr ((update_of_ne here _ _).trans (woken_notified notified woken))
  | @wake u k' asleep =>
    have other : t ≠ u := by
      rintro rfl
      cases asleep.symm.trans woken
    exact Or.inr ((update_of_ne other _ _).trans woken)

/-- The thread that has the lock. -/
def Event.runs : Event τ α ρ κ → Option τ
  | .enter t _ _ => some t
  | .resume t _ _ => some t
  | .wake _ => none

/-- After its section a thread does not wait for the lock. -/
theorem status_runs {m m' : Monitor τ σ κ} {e : Event τ α ρ κ} (step : Step P m e m') {t : τ}
    (runs : e.runs = some t) (k : κ) : m'.status t ≠ .woken k := by
  have apart : ∀ next : Next ρ κ, next.status ≠ .woken k := by
    intro next
    cases next <;> simp [Next.status]
  cases step with
  | enter =>
    cases runs
    simpa only [update_self] using apart _
  | resume =>
    cases runs
    simpa only [update_self] using apart _
  | wake => cases runs

/-- An infinite run of the threads. -/
structure Run (P : Program α σ ρ κ) (start : Monitor τ σ κ) where
  states : Nat → Monitor τ σ κ
  events : Nat → Event τ α ρ κ
  starts : states 0 = start
  steps : ∀ n, Step P (states n) (events n) (states (n + 1))

namespace Run
variable {start : Monitor τ σ κ}

/-- A woken thread gets the lock in the end. -/
def Granted (run : Run P start) : Prop :=
  ∀ n t k, (run.states n).status t = .woken k → ∃ m next, n ≤ m ∧ run.events m = .resume t k next

theorem invariant (run : Run P start) {Invariant : Monitor τ σ κ → Prop}
    (holds : Invariant start)
    (kept : ∀ m e m', Invariant m → Step P m e m' → Invariant m') (n : Nat) :
    Invariant (run.states n) := by
  induction n with
  | zero =>
    rw [run.starts]
    exact holds
  | succ n ih => exact kept _ _ _ ih (run.steps n)

/-- A woken thread goes on waiting for the lock until it gets it. -/
theorem next_resume (run : Run P start) (granted : run.Granted) {n : Nat} {t : τ} {k : κ}
    (woken : (run.states n).status t = .woken k) :
    ∃ m next, n ≤ m ∧ run.events m = .resume t k next ∧
      ∀ i, n ≤ i → i ≤ m → (run.states i).status t = .woken k := by
  obtain ⟨m, next, after, resumes⟩ := granted n t k woken
  obtain ⟨d, rfl⟩ := Nat.exists_eq_add_of_le after
  -- Induction on the distance to some resumption, up to the first one.
  induction d generalizing n with
  | zero =>
    refine ⟨n, next, Nat.le_refl n, resumes, fun i low high => ?_⟩
    rw [Nat.le_antisymm high low]
    exact woken
  | succ d ih =>
    rcases woken_step (run.steps n) woken with ⟨first, here⟩ | still
    · refine ⟨n, first, Nat.le_refl n, here, fun i low high => ?_⟩
      rw [Nat.le_antisymm high low]
      exact woken
    · have later : run.events (n + 1 + d) = .resume t k next := by
        rw [← resumes]
        congr 1
        omega
      obtain ⟨m, next', far, ends, waits⟩ := ih still (Nat.le_add_right _ _) later
      refine ⟨m, next', by omega, ends, fun i low high => ?_⟩
      rcases Nat.eq_or_lt_of_le low with rfl | above
      · exact woken
      · exact waits i above high

end Run

end

end Monitors
