import Mathlib.Data.List.Induction
import Mathlib.Logic.Function.Basic
import Redstone.StepRuns

/-!
# The end of a simulation

`main` waits for the prime replica, kills the others and returns, or waits for all if none
is prime. The workers go on meanwhile: until the process is over a worker that still traces
uses its machine, the simulator behind it and the table of hooks, whether or not `main` has
destroyed them. A worker keeps its handle alive until its function returns, and the handle
holds the thread itself: whoever drops the last pointer to a handle that was not joined ends
the process. The wait for a child and the store to `pid_` after it, each read of `pid_` and
each destructor are steps of their own.
-/

namespace Shutdown

open Function StepRuns

variable {τ : Type}

/-- A child that `pid_` is the number of, one that the kernel has already given up, and one
whose `pid_` was set to -1 after that. -/
inductive Child where
  | here
  | reaped
  | forgotten
  deriving DecidableEq

/-- What `child::terminate` did: it threw, since `pid_` was -1; it called `kill`, and that
failed, or reached the child, or another process that has its number now, or every process
since `pid_` was -1 by then. -/
inductive Killed where
  | refused
  | failed
  | child
  | stranger
  | everyone
  deriving DecidableEq

/-- An exception came of it. -/
def Killed.Thrown : Killed → Prop
  | refused => True
  | failed => True
  | _ => False

/-- What `kill` can do with the number that is in `pid_`. -/
inductive Hits : Child → Killed → Prop where
  | child : Hits .here .child
  | stranger : Hits .reaped .stranger
  | missed : Hits .reaped .failed
  | everyone : Hits .forgotten .everyone
  | nobody : Hits .forgotten .failed

theorem Hits.thrown_iff {c : Child} {k : Killed} (hits : Hits c k) : k.Thrown ↔ k = .failed := by
  cases hits <;> simp [Killed.Thrown]

/-- What a worker uses and does not own: the machine of its replica, the simulator with its
network and its generator, and the static tables of `get_hook`. -/
inductive Borrowed where
  | machine
  | simulator
  | tables
  deriving DecidableEq

/-- Where `main` is, with the machines that it has not yet waited for, killed or released.
Then the simulator and the static objects are destroyed. -/
inductive Main (τ : Type) where
  | waiting (left : List τ)
  | waitingPrime (prime : τ)
  | killing (left : List τ)
  | checked (i : τ) (left : List τ)
  | leaving (left : List τ)
  | closing
  | ending
  | exited
  | aborted
  | undefined

/-- `ended` tells whether the worker's function has returned, `held` whether `main` still
points to the machine and so to its handle. -/
structure State (τ : Type) where
  children : τ → Child
  ended : τ → Bool
  joined : τ → Bool
  held : τ → Bool
  main : Main τ
  kills : List (τ × Killed)

inductive Event (τ : Type) where
  | reaps (i : τ)
  | forgets (i : τ)
  | uses (i : τ) (what : Borrowed)
  | finishes (i : τ)
  | throws (i : τ)
  | joins (i : τ)
  | checks (i : τ)
  | kills (i : τ)
  | returns
  | releases (i : τ)
  | clears
  | unloads
  | exits

/-- The process is not over. -/
def Main.Alive : Main τ → Prop
  | exited => False
  | aborted => False
  | undefined => False
  | _ => True

/-- The simulator has been destroyed. -/
def Main.Cleared : Main τ → Prop
  | closing => True
  | ending => True
  | _ => False

/-- The static objects have been destroyed. -/
def Main.Unloaded : Main τ → Prop
  | ending => True
  | _ => False

/-- What a worker borrows does not exist any more. -/
def State.Gone (s : State τ) (i : τ) : Borrowed → Prop
  | .machine => s.held i = false
  | .simulator => s.main.Cleared
  | .tables => s.main.Unloaded

/-- All workers are in their loops. -/
def start (machines : List τ) (prime : Option τ) : State τ where
  children := fun _ => .here
  ended := fun _ => false
  joined := fun _ => false
  held := fun _ => true
  main := prime.elim (.waiting machines) .waitingPrime
  kills := []

section Steps
variable [DecidableEq τ]

/-- The machines that are killed. -/
def others (machines : List τ) (prime : τ) : List τ := machines.filter fun i => i ≠ prime

inductive ShutdownStep (machines : List τ) (s : State τ) : Event τ → State τ → Prop where
  | reaps {i : τ} (alive : s.main.Alive) (member : i ∈ machines) (runs : s.ended i = false)
      (here : s.children i = .here) :
      ShutdownStep machines s (.reaps i) { s with children := update s.children i .reaped }
  | forgets {i : τ} (alive : s.main.Alive) (member : i ∈ machines) (runs : s.ended i = false)
      (gone : s.children i = .reaped) :
      ShutdownStep machines s (.forgets i) { s with children := update s.children i .forgotten }
  | uses {i : τ} {what : Borrowed} (alive : s.main.Alive) (member : i ∈ machines)
      (runs : s.ended i = false) (there : ¬s.Gone i what) :
      ShutdownStep machines s (.uses i what) s
  | trespasses {i : τ} {what : Borrowed} (alive : s.main.Alive) (member : i ∈ machines)
      (runs : s.ended i = false) (gone : s.Gone i what) :
      ShutdownStep machines s (.uses i what) { s with main := .undefined }
  -- the loop ends after `pid_` was set, and on `ESRCH` also before the child is waited for
  | finishes {i : τ} (alive : s.main.Alive) (member : i ∈ machines) (runs : s.ended i = false)
      (known : s.children i ≠ .reaped) :
      ShutdownStep machines s (.finishes i)
        { s with
          ended := update s.ended i true
          main := if s.held i then s.main else .aborted }
  | throws {i : τ} (alive : s.main.Alive) (member : i ∈ machines) (runs : s.ended i = false) :
      ShutdownStep machines s (.throws i) { s with main := .aborted }
  | joins {i : τ} {left : List τ} (here : s.main = .waiting (i :: left))
      (done : s.ended i = true) :
      ShutdownStep machines s (.joins i)
        { s with joined := update s.joined i true, main := .waiting left }
  | waited (here : s.main = .waiting []) :
      ShutdownStep machines s .returns { s with main := .leaving machines }
  | joinsPrime {prime : τ} (here : s.main = .waitingPrime prime)
      (done : s.ended prime = true) :
      ShutdownStep machines s (.joins prime)
        { s with joined := update s.joined prime true, main := .killing (others machines prime) }
  | checks {i : τ} {left : List τ} (here : s.main = .killing (i :: left))
      (known : s.children i ≠ .forgotten) :
      ShutdownStep machines s (.checks i) { s with main := .checked i left }
  | refuses {i : τ} {left : List τ} (here : s.main = .killing (i :: left))
      (forgotten : s.children i = .forgotten) :
      ShutdownStep machines s (.checks i)
        { s with main := .aborted, kills := s.kills ++ [(i, .refused)] }
  | kills {i : τ} {left : List τ} {k : Killed} (here : s.main = .checked i left)
      (hits : Hits (s.children i) k) :
      ShutdownStep machines s (.kills i)
        { s with
          main := if k = .failed then .aborted else .killing left
          kills := s.kills ++ [(i, k)] }
  | killed (here : s.main = .killing []) :
      ShutdownStep machines s .returns { s with main := .leaving machines }
  | releases {i : τ} {left : List τ} (here : s.main = .leaving (i :: left)) :
      ShutdownStep machines s (.releases i)
        { s with
          held := update s.held i false
          main := if s.ended i = true ∧ s.joined i = false then .aborted else .leaving left }
  | clears (here : s.main = .leaving []) :
      ShutdownStep machines s .clears { s with main := .closing }
  | unloads (here : s.main = .closing) :
      ShutdownStep machines s .unloads { s with main := .ending }
  | exits (here : s.main = .ending) :
      ShutdownStep machines s .exits { s with main := .exited }

/-- No exception but `ESRCH` leaves a worker. -/
def Quiet (past : List (Event τ)) : Prop := ∀ i, .throws i ∉ past

omit [DecidableEq τ] in
theorem quiet_snoc {past : List (Event τ)} {e : Event τ} (quiet : Quiet (past ++ [e])) :
    Quiet past ∧ ∀ i, e ≠ .throws i := by
  refine ⟨fun i member => quiet i (List.mem_append_left _ member), ?_⟩
  rintro i rfl
  exact quiet i (List.mem_append_right _ (List.mem_singleton_self _))

/-! ## What is released -/

/-- The machines that `main` has not released. -/
def Main.keeps (machines : List τ) : Main τ → List τ
  | leaving left => left
  | closing => []
  | ending => []
  | exited => []
  | aborted => []
  | undefined => []
  | _ => machines

/-- `main` has not begun to release. -/
def Main.Early : Main τ → Prop
  | leaving _ => False
  | closing => False
  | ending => False
  | exited => False
  | aborted => False
  | undefined => False
  | _ => True

/-- Nothing has gone wrong. -/
def Main.Fine : Main τ → Prop
  | aborted => False
  | undefined => False
  | _ => True

/-- As long as nothing goes wrong, the thread of a machine that was released has been joined
when it ends. -/
structure Releases (machines : List τ) (s : State τ) : Prop where
  early : s.main.Early → ∀ i, s.held i = true
  keeps : s.main.Fine → ∀ i ∈ machines, i ∈ s.main.keeps machines ∨ s.held i = false
  released : s.main.Fine → ∀ i, s.held i = false → s.ended i = true → s.joined i = true
  joined : ∀ i, s.joined i = true → s.ended i = true

omit [DecidableEq τ] in
theorem releases_start (machines : List τ) (prime : Option τ) :
    Releases machines (start machines prime) := by
  refine ⟨fun _ _ => rfl, fun _ i member => Or.inl ?_, fun _ i gone => ?_, fun i joined => ?_⟩
  · cases prime <;> exact member
  · cases gone
  · cases joined

theorem joined_join {s : State τ} {i : τ} (joined : ∀ i, s.joined i = true → s.ended i = true)
    (done : s.ended i = true) (k : τ) (here : update s.joined i true k = true) :
    s.ended k = true := by
  by_cases same : k = i
  · rw [same, done]
  · rw [update_of_ne same] at here
    exact joined k here

theorem releases_step {machines : List τ} {s after : State τ} {e : Event τ}
    (before : Releases machines s) (step : ShutdownStep machines s e after) :
    Releases machines after := by
  obtain ⟨early, keeps, released, joined⟩ := before
  cases step with
  | reaps => exact ⟨early, keeps, released, joined⟩
  | forgets => exact ⟨early, keeps, released, joined⟩
  | uses => exact ⟨early, keeps, released, joined⟩
  | trespasses => exact ⟨False.elim, False.elim, False.elim, joined⟩
  | @finishes i alive member runs known =>
    have joined' : ∀ k, s.joined k = true → update s.ended i true k = true := by
      intro k was
      by_cases same : k = i
      · rw [same, update_self]
      · rw [update_of_ne same]
        exact joined k was
    cases held : s.held i with
    | true =>
      refine ⟨early, keeps, fun fine k gone done => ?_, joined'⟩
      have other : k ≠ i := by
        rintro rfl
        cases held.symm.trans gone
      change update s.ended i true k = true at done
      rw [update_of_ne other] at done
      exact released fine k gone done
    | false => exact ⟨False.elim, False.elim, False.elim, joined'⟩
  | throws => exact ⟨False.elim, False.elim, False.elim, joined⟩
  | @joins i left here done =>
    rw [here] at early keeps released
    refine ⟨early, fun _ => keeps trivial, fun _ k gone => ?_, joined_join joined done⟩
    cases (early trivial k).symm.trans gone
  | waited here =>
    rw [here] at keeps released
    exact ⟨False.elim, fun _ => keeps trivial, fun _ => released trivial, joined⟩
  | @joinsPrime prime here done =>
    rw [here] at early keeps released
    refine ⟨early, fun _ => keeps trivial, fun _ k gone => ?_, joined_join joined done⟩
    cases (early trivial k).symm.trans gone
  | checks here known =>
    rw [here] at early keeps released
    exact ⟨early, fun _ => keeps trivial, fun _ => released trivial, joined⟩
  | refuses => exact ⟨False.elim, False.elim, False.elim, joined⟩
  | @kills i left k here hits =>
    rw [here] at early keeps released
    by_cases failed : k = .failed
    · rw [if_pos failed]
      exact ⟨False.elim, False.elim, False.elim, joined⟩
    · rw [if_neg failed]
      exact ⟨early, fun _ => keeps trivial, fun _ => released trivial, joined⟩
  | killed here =>
    rw [here] at keeps released
    exact ⟨False.elim, fun _ => keeps trivial, fun _ => released trivial, joined⟩
  | @releases i left here =>
    rw [here] at keeps released
    by_cases last : s.ended i = true ∧ s.joined i = false
    · rw [if_pos last]
      exact ⟨False.elim, False.elim, False.elim, joined⟩
    · rw [if_neg last]
      refine ⟨False.elim, fun _ k member => ?_, fun _ k gone done => ?_, joined⟩
      · by_cases same : k = i
        · exact Or.inr (by rw [same]; exact update_self i false s.held)
        · rcases keeps trivial k member with left | gone
          · exact Or.inl ((List.mem_cons.mp left).resolve_left same)
          · exact Or.inr ((update_of_ne same false s.held).trans gone)
      · by_cases same : k = i
        · rw [same] at done ⊢
          by_contra unjoined
          exact last ⟨done, Bool.eq_false_iff.mpr unjoined⟩
        · change update s.held i false k = false at gone
          rw [update_of_ne same] at gone
          exact released trivial k gone done
  | clears here =>
    rw [here] at keeps released
    exact ⟨False.elim, fun _ => keeps trivial, fun _ => released trivial, joined⟩
  | unloads here =>
    rw [here] at keeps released
    exact ⟨False.elim, fun _ => keeps trivial, fun _ => released trivial, joined⟩
  | exits here =>
    rw [here] at keeps released
    exact ⟨False.elim, fun _ => keeps trivial, fun _ => released trivial, joined⟩

theorem releases_run {machines : List τ} {prime : Option τ} {past : List (Event τ)} {s : State τ}
    (path : Path (ShutdownStep machines) (start machines prime) past s) : Releases machines s :=
  history_invariant (fun _ s => Releases machines s) (releases_start machines prime)
    (fun _ _ _ _ => releases_step) path

/-! ## What is used after it is gone -/

/-- The event that destroys what worker `i` borrows. -/
def Borrowed.destroyer (i : τ) : Borrowed → Event τ
  | machine => .releases i
  | simulator => .clears
  | tables => .unloads

/-- Some worker uses what `main` has destroyed before. -/
def Trespass (past : List (Event τ)) : Prop :=
  ∃ before i what rest, past = before ++ .uses i what :: rest ∧ what.destroyer i ∈ before

omit [DecidableEq τ] in
theorem trespass_snoc {past : List (Event τ)} {e : Event τ} :
    Trespass (past ++ [e]) ↔
      Trespass past ∨ ∃ i what, e = .uses i what ∧ what.destroyer i ∈ past := by
  constructor
  · rintro ⟨before, i, what, rest, cut, lost⟩
    induction rest using List.reverseRecOn with
    | nil =>
      obtain ⟨rfl, last⟩ := List.append_inj' cut rfl
      exact Or.inr ⟨i, what, List.singleton_inj.mp last, lost⟩
    | append_singleton rest last =>
      rw [← List.cons_append, ← List.append_assoc] at cut
      obtain ⟨rfl, -⟩ := List.append_inj' cut rfl
      exact Or.inl ⟨before, i, what, rest, rfl, lost⟩
  · rintro (⟨before, i, what, rest, rfl, lost⟩ | ⟨i, what, rfl, lost⟩)
    · exact ⟨before, i, what, rest ++ [e], by simp, lost⟩
    · exact ⟨past, i, what, [], rfl, lost⟩

/-- What is gone was destroyed before, and the outcome is undefined exactly if some worker
used such a thing. -/
structure Borrows (past : List (Event τ)) (s : State τ) : Prop where
  gone : s.main.Alive → ∀ i what, s.Gone i what ↔ what.destroyer i ∈ past
  undefined : s.main = .undefined ↔ Trespass past

omit [DecidableEq τ] in
theorem borrows_start (machines : List τ) (prime : Option τ) :
    Borrows [] (start machines prime) := by
  refine ⟨fun _ i what => iff_of_false ?_ List.not_mem_nil, iff_of_false ?_ ?_⟩
  · cases what <;> cases prime <;> simp [State.Gone, start, Main.Cleared, Main.Unloaded]
  · cases prime <;> simp [start]
  · rintro ⟨before, i, what, rest, cut, -⟩
    simp at cut

theorem alive_of_step {machines : List τ} {s after : State τ} {e : Event τ}
    (step : ShutdownStep machines s e after) : s.main.Alive := by
  cases step with
  | reaps alive => exact alive
  | forgets alive => exact alive
  | uses alive => exact alive
  | trespasses alive => exact alive
  | finishes alive => exact alive
  | throws alive => exact alive
  | joins here => exact here ▸ trivial
  | waited here => exact here ▸ trivial
  | joinsPrime here => exact here ▸ trivial
  | checks here => exact here ▸ trivial
  | refuses here => exact here ▸ trivial
  | kills here => exact here ▸ trivial
  | killed here => exact here ▸ trivial
  | releases here => exact here ▸ trivial
  | clears here => exact here ▸ trivial
  | unloads here => exact here ▸ trivial
  | exits here => exact here ▸ trivial

theorem held_step {machines : List τ} {s after : State τ} {e : Event τ}
    (step : ShutdownStep machines s e after) (i : τ) :
    after.held i = false ↔ s.held i = false ∨ e = .releases i := by
  cases step with
  | @releases k left here =>
    by_cases same : i = k
    · exact iff_of_true (by rw [same]; exact update_self k false s.held) (Or.inr (by rw [same]))
    · have other : Event.releases k ≠ .releases i := fun h => same (Event.releases.inj h).symm
      rw [or_iff_left other]
      exact Eq.congr_left (update_of_ne same false s.held)
  | _ => exact (or_iff_left nofun).symm

theorem cleared_step {machines : List τ} {s after : State τ} {e : Event τ}
    (step : ShutdownStep machines s e after) (alive : after.main.Alive) :
    after.main.Cleared ↔ s.main.Cleared ∨ e = .clears := by
  cases step with
  | finishes => split at alive <;> simp_all [Main.Alive]
  | kills here =>
    refine iff_of_false ?_ (by simp [here, Main.Cleared])
    split <;> exact id
  | releases here =>
    refine iff_of_false ?_ (by simp [here, Main.Cleared])
    split <;> exact id
  | _ => simp_all [Main.Cleared, Main.Alive]

theorem unloaded_step {machines : List τ} {s after : State τ} {e : Event τ}
    (step : ShutdownStep machines s e after) (alive : after.main.Alive) :
    after.main.Unloaded ↔ s.main.Unloaded ∨ e = .unloads := by
  cases step with
  | finishes => split at alive <;> simp_all [Main.Alive]
  | kills here =>
    refine iff_of_false ?_ (by simp [here, Main.Unloaded])
    split <;> exact id
  | releases here =>
    refine iff_of_false ?_ (by simp [here, Main.Unloaded])
    split <;> exact id
  | _ => simp_all [Main.Unloaded, Main.Alive]

/-- Only the step that destroys a thing makes it go. -/
theorem gone_step {machines : List τ} {s after : State τ} {e : Event τ}
    (step : ShutdownStep machines s e after) (alive : after.main.Alive) (i : τ)
    (what : Borrowed) : after.Gone i what ↔ s.Gone i what ∨ e = what.destroyer i := by
  cases what with
  | machine => exact held_step step i
  | simulator => exact cleared_step step alive
  | tables => exact unloaded_step step alive

/-- The outcome becomes undefined only by a use of what is gone. -/
theorem undefined_step {machines : List τ} {s after : State τ} {e : Event τ}
    (step : ShutdownStep machines s e after) :
    after.main = .undefined ↔ ∃ i what, e = .uses i what ∧ s.Gone i what := by
  have stays : s.main.Alive → s.main ≠ .undefined := by
    intro alive undefined
    rw [undefined] at alive
    exact alive
  cases step with
  | reaps alive => exact iff_of_false (stays alive) (by nofun)
  | forgets alive => exact iff_of_false (stays alive) (by nofun)
  | uses alive _ _ there =>
    refine iff_of_false (stays alive) ?_
    rintro ⟨i, what, ⟨⟩, gone⟩
    exact there gone
  | trespasses _ _ _ gone => exact iff_of_true rfl ⟨_, _, rfl, gone⟩
  | finishes alive =>
    refine iff_of_false ?_ (by nofun)
    split
    · exact stays alive
    · nofun
  | kills =>
    refine iff_of_false ?_ (by nofun)
    split <;> nofun
  | releases =>
    refine iff_of_false ?_ (by nofun)
    split <;> nofun
  | throws => exact iff_of_false nofun (by nofun)
  | joins => exact iff_of_false nofun (by nofun)
  | waited => exact iff_of_false nofun (by nofun)
  | joinsPrime => exact iff_of_false nofun (by nofun)
  | checks => exact iff_of_false nofun (by nofun)
  | refuses => exact iff_of_false nofun (by nofun)
  | killed => exact iff_of_false nofun (by nofun)
  | clears => exact iff_of_false nofun (by nofun)
  | unloads => exact iff_of_false nofun (by nofun)
  | exits => exact iff_of_false nofun (by nofun)

theorem borrows_step {machines : List τ} {past : List (Event τ)} {s after : State τ}
    {e : Event τ} (before : Borrows past s) (step : ShutdownStep machines s e after) :
    Borrows (past ++ [e]) after := by
  have alive := alive_of_step step
  have fine : ¬Trespass past := by
    rw [← before.undefined]
    intro undefined
    rw [undefined] at alive
    exact alive
  refine ⟨fun alive' i what => ?_, ?_⟩
  · rw [gone_step step alive', before.gone alive, List.mem_append, List.mem_singleton, eq_comm]
  · rw [undefined_step step, trespass_snoc, or_iff_right fine]
    simp only [before.gone alive]

theorem borrows_run {machines : List τ} {prime : Option τ} {past : List (Event τ)} {s : State τ}
    (path : Path (ShutdownStep machines) (start machines prime) past s) : Borrows past s :=
  history_invariant Borrows (borrows_start machines prime) (fun _ _ _ _ => borrows_step) path

/-! ## With a prime replica -/

/-- The machines that `main` has still to kill. -/
def Main.toKill (machines : List τ) : Main τ → List τ
  | waitingPrime prime => others machines prime
  | killing left => left
  | checked i left => i :: left
  | _ => []

def Main.IsWaiting (prime : τ) : Main τ → Prop
  | waiting _ => False
  | waitingPrime p => p = prime
  | _ => True

/-- Each machine but the prime one is killed once, in order. The process is aborted only by
a kill that throws or by the end of a worker that nobody joins. -/
structure Primed (machines : List τ) (prime : τ) (s : State τ) : Prop where
  place : s.main.IsWaiting prime
  waited : s.main = .waitingPrime prime ∨ s.main = .undefined ∨ s.joined prime = true
  joined : ∀ i, s.joined i = true → i = prime
  order : s.main.Fine → s.kills.map Prod.fst ++ s.main.toKill machines = others machines prime
  accepted : s.main.Fine → ∀ k ∈ s.kills, ¬k.2.Thrown
  inside : ∀ left, s.main = .leaving left → ∀ i ∈ left, i ∈ machines
  aborted : s.main = .aborted → (∃ k ∈ s.kills, k.2.Thrown) ∨
    ∃ i ∈ others machines prime, s.ended i = true

theorem mem_others {machines : List τ} {prime i : τ} :
    i ∈ others machines prime ↔ i ∈ machines ∧ i ≠ prime := by
  rw [others, List.mem_filter, decide_eq_true_iff]

theorem primed_start (machines : List τ) (prime : τ) :
    Primed machines prime (start machines (some prime)) := by
  refine ⟨rfl, Or.inl rfl, fun i joined => ?_, fun _ => rfl, fun _ k member => ?_, nofun, nofun⟩
  · cases joined
  · cases member

/-- `main` goes on, and nothing else happens. -/
theorem Primed.moved {machines : List τ} {prime : τ} {s : State τ} {here m : Main τ}
    (before : Primed machines prime s) (main : s.main = here) (fine : here.Fine)
    (past : here ≠ .waitingPrime prime) (place : m.IsWaiting prime)
    (left : here.toKill machines = m.toKill machines)
    (inside : ∀ left, m = .leaving left → ∀ i ∈ left, i ∈ machines) (going : m ≠ .aborted) :
    Primed machines prime { s with main := m } := by
  subst main
  obtain ⟨-, waited, joined, order, accepted, -, -⟩ := before
  refine ⟨place, ?_, joined, fun _ => ?_, fun _ => accepted fine, inside,
    fun dead => absurd dead going⟩
  · rcases waited with waits | undefined | was
    · exact absurd waits past
    · rw [undefined] at fine
      exact fine.elim
    · exact Or.inr (Or.inr was)
  · exact left ▸ order fine

theorem primed_step {machines : List τ} {prime : τ} {s after : State τ} {e : Event τ}
    (releases : Releases machines s) (before : Primed machines prime s)
    (silent : ∀ i, e ≠ .throws i) (step : ShutdownStep machines s e after) :
    Primed machines prime after := by
  have alive := alive_of_step step
  have kept := before
  obtain ⟨place, waited, joined, order, accepted, inside, aborted⟩ := before
  cases step with
  | reaps => exact ⟨place, waited, joined, order, accepted, inside, aborted⟩
  | forgets => exact ⟨place, waited, joined, order, accepted, inside, aborted⟩
  | uses => exact ⟨place, waited, joined, order, accepted, inside, aborted⟩
  | trespasses =>
    exact ⟨trivial, Or.inr (Or.inl rfl), joined, False.elim, False.elim, nofun, nofun⟩
  | @finishes i _ member runs known =>
    cases held : s.held i with
    | true =>
      refine ⟨place, waited, joined, order, accepted, inside, fun dead => ?_⟩
      rw [show s.main = .aborted from dead] at alive
      exact alive.elim
    | false =>
      -- the prime worker has been joined before anything is released
      have was : s.joined prime = true := by
        rcases waited with waits | undefined | was
        · have early : s.main.Early := by
            rw [waits]
            trivial
          cases (releases.early early i).symm.trans held
        · rw [undefined] at alive
          exact alive.elim
        · exact was
      have other : i ≠ prime := by
        rintro rfl
        cases runs.symm.trans (releases.joined i was)
      refine ⟨trivial, Or.inr (Or.inr was), joined, False.elim, False.elim, nofun,
        fun _ => Or.inr ⟨i, ?_, update_self i _ s.ended⟩⟩
      exact mem_others.mpr ⟨member, other⟩
  | @throws i _ member runs => exact absurd rfl (silent i)
  | @joins i left here done =>
    rw [here] at place
    exact place.elim
  | waited here =>
    rw [here] at place
    exact place.elim
  | @joinsPrime p here done =>
    rw [here] at place order accepted
    obtain rfl : p = prime := place
    refine ⟨trivial, Or.inr (Or.inr (update_self p true s.joined)), fun k was => ?_,
      fun _ => order trivial, fun _ => accepted trivial, nofun, nofun⟩
    change update s.joined p true k = true at was
    by_contra other
    rw [update_of_ne other] at was
    exact other (joined k was)
  | checks here known => exact kept.moved here trivial nofun trivial rfl nofun nofun
  | @refuses i left here forgotten =>
    rw [here] at waited
    refine ⟨trivial, waited.imp nofun (Or.imp_left nofun), joined, False.elim, False.elim, nofun,
      fun _ => Or.inl ⟨(i, .refused), ?_, trivial⟩⟩
    exact List.mem_append_right _ (List.mem_singleton_self _)
  | @kills i left k here hits =>
    rw [here] at waited order accepted
    by_cases failed : k = .failed
    · rw [if_pos failed]
      refine ⟨trivial, waited.imp nofun (Or.imp_left nofun), joined, False.elim, False.elim,
        nofun, fun _ => Or.inl ⟨(i, k), ?_, ?_⟩⟩
      · exact List.mem_append_right _ (List.mem_singleton_self _)
      · rw [failed]
        trivial
    · rw [if_neg failed]
      refine ⟨trivial, waited.imp nofun (Or.imp_left nofun), joined, fun _ => ?_,
        fun _ hit member => ?_, nofun, nofun⟩
      · rw [← order trivial, List.map_append, List.append_assoc]
        rfl
      · rcases List.mem_append.mp member with old | new
        · exact accepted trivial hit old
        · rw [List.mem_singleton.mp new]
          exact hits.thrown_iff.not.mpr failed
  | killed here =>
    refine kept.moved here trivial nofun trivial rfl (fun left same i member => ?_) nofun
    cases same
    exact member
  | @releases i left here =>
    rw [here] at waited order accepted
    have member : i ∈ machines := inside _ here i List.mem_cons_self
    have was : s.joined prime = true := (waited.resolve_left nofun).resolve_left nofun
    by_cases last : s.ended i = true ∧ s.joined i = false
    · rw [if_pos last]
      have other : i ≠ prime := by
        rintro rfl
        cases was.symm.trans last.2
      exact ⟨trivial, Or.inr (Or.inr was), joined, False.elim, False.elim, nofun,
        fun _ => Or.inr ⟨i, mem_others.mpr ⟨member, other⟩, last.1⟩⟩
    · rw [if_neg last]
      refine ⟨trivial, Or.inr (Or.inr was), joined, fun _ => order trivial,
        fun _ => accepted trivial, fun rest same k later => ?_, nofun⟩
      cases same
      exact inside _ here k (List.mem_cons_of_mem i later)
  | clears here => exact kept.moved here trivial nofun trivial rfl nofun nofun
  | unloads here => exact kept.moved here trivial nofun trivial rfl nofun nofun
  | exits here => exact kept.moved here trivial nofun trivial rfl nofun nofun

theorem primed_run {machines : List τ} {prime : τ} {past : List (Event τ)} {s : State τ}
    (path : Path (ShutdownStep machines) (start machines (some prime)) past s)
    (quiet : Quiet past) : Primed machines prime s := by
  refine (history_invariant (fun past s => Quiet past → Primed machines prime s ∧
    Releases machines s) ?_ ?_ path quiet).1
  · exact fun _ => ⟨primed_start machines prime, releases_start machines (some prime)⟩
  · intro past t e u before step quiet
    obtain ⟨front, silent⟩ := quiet_snoc quiet
    obtain ⟨primed, releases⟩ := before front
    exact ⟨primed_step releases primed silent step, releases_step releases step⟩

omit [DecidableEq τ] in
theorem over_cases {m : Main τ} (done : ¬m.Alive) :
    m = .exited ∨ m = .aborted ∨ m = .undefined := by
  cases m with
  | exited => exact Or.inl rfl
  | aborted => exact Or.inr (Or.inl rfl)
  | undefined => exact Or.inr (Or.inr rfl)
  | _ => exact absurd trivial done

/-- The process that has a prime replica exits if and only if no kill throws (the child is
forgotten before it is checked, or reaped before it is killed and then not replaced), no other
worker ends, and none uses its machine, the simulator or the static tables after `main`
destroyed them. Then each of the others has been killed once, and each is left in its loop
with a machine that is gone. The outcome is undefined exactly if one uses what is gone. -/
theorem prime_exits_iff {machines : List τ} {prime : τ} {past : List (Event τ)} {s : State τ}
    (path : Path (ShutdownStep machines) (start machines (some prime)) past s)
    (quiet : Quiet past) (done : ¬s.main.Alive) :
    (s.main = .exited ↔ (∀ k ∈ s.kills, ¬k.2.Thrown) ∧
      (∀ i ∈ others machines prime, s.ended i = false) ∧ ¬Trespass past) ∧
    (s.main = .undefined ↔ Trespass past) ∧
    (s.main = .exited → s.kills.map Prod.fst = others machines prime ∧
      ∀ i ∈ machines, s.held i = false) := by
  have primed := primed_run path quiet
  have releases := releases_run path
  have borrows := borrows_run path
  have fine : s.main = .exited → s.main.Fine := fun exited => exited ▸ trivial
  have gone : s.main = .exited → ∀ i ∈ machines, s.held i = false := by
    intro exited i member
    have kept := releases.keeps (fine exited) i member
    rw [exited] at kept
    exact kept.resolve_left List.not_mem_nil
  refine ⟨⟨fun exited => ⟨primed.accepted (fine exited), fun i member => ?_, fun trespass => ?_⟩,
    fun clean => ?_⟩, borrows.undefined, fun exited => ⟨?_, gone exited⟩⟩
  · obtain ⟨inside, other⟩ := mem_others.mp member
    by_contra ended
    have joined := releases.released (fine exited) i (gone exited i inside)
      ((Bool.not_eq_false _).mp ended)
    exact other (primed.joined i joined)
  · cases exited.symm.trans (borrows.undefined.mpr trespass)
  · obtain ⟨accepted, runs, apart⟩ := clean
    rcases over_cases done with exited | dead | undefined
    · exact exited
    · rcases primed.aborted dead with ⟨k, member, thrown⟩ | ⟨i, member, ended⟩
      · exact absurd thrown (accepted k member)
      · cases (runs i member).symm.trans ended
    · exact absurd (borrows.undefined.mp undefined) apart
  · have order := primed.order (fine exited)
    rw [exited] at order
    exact (List.append_nil _).symm.trans order

/-- The second machine's child gets the signal and its worker runs on: the process exits if
it stays idle, and if it makes another step with its machine the outcome is undefined. -/
theorem prime_exits_running :
    (∃ past s, Path (ShutdownStep [0, 1]) (start [0, 1] (some 0)) past s ∧ s.main = .exited ∧
      s.kills = [(1, .child)] ∧ s.ended 1 = false ∧ s.held 1 = false) ∧
    ∃ past s, Path (ShutdownStep [0, 1]) (start [0, 1] (some 0)) past s ∧ Trespass past ∧
      s.main = .undefined := by
  let first : List (Event Nat) := [.reaps 0, .forgets 0, .finishes 0, .joins 0, .checks 1,
    .kills 1, .returns, .releases 0, .releases 1]
  have front : ∃ s, Path (ShutdownStep [0, 1]) (start [0, 1] (some 0)) first s ∧
      s.main = .leaving [] ∧ s.kills = [(1, .child)] ∧ s.ended 1 = false ∧ s.held 1 = false :=
    ⟨_, path_cons (.reaps trivial (by decide) rfl rfl) <|
      path_cons (.forgets trivial (by decide) rfl rfl) <|
      path_cons (.finishes trivial (by decide) rfl (by decide)) <|
      path_cons (.joinsPrime rfl rfl) <| path_cons (.checks rfl (by decide)) <|
      path_cons (.kills rfl .child) <| path_cons (.killed rfl) <|
      path_cons (.releases rfl) <| path_cons (.releases rfl) .start, rfl, rfl, rfl, rfl⟩
  obtain ⟨s, front, main, killed, runs, gone⟩ := front
  constructor
  · have path := path_trans front (path_cons (.clears main) (path_cons (.unloads rfl)
      (path_cons (.exits rfl) .start)))
    have quiet : Quiet (first ++ [.clears, .unloads, .exits]) := by
      intro i member
      simp [first] at member
    obtain ⟨iff, -, left⟩ := prime_exits_iff path quiet id
    exact ⟨_, _, path, rfl, killed, (iff.mp rfl).2.1 1 (by decide), (left rfl).2 1 (by decide)⟩
  · have alive : s.main.Alive := by
      rw [main]
      trivial
    have path := path_trans front
      (path_cons (.trespasses alive (by decide) runs (show s.Gone 1 .machine from gone)) .start)
    have quiet : Quiet (first ++ [.uses 1 .machine]) := by
      intro i member
      simp [first] at member
    exact ⟨_, _, path, (prime_exits_iff path quiet id).2.1.mp rfl, rfl⟩

/-! ## Without one -/

def Main.Joins : Main τ → Prop
  | waiting _ => True
  | leaving _ => True
  | closing => True
  | ending => True
  | exited => True
  | _ => False

def Main.toJoin : Main τ → List τ
  | waiting left => left
  | _ => []

/-- The machines on the way of `main`. -/
def Main.ahead : Main τ → List τ
  | waiting left => left
  | leaving left => left
  | _ => []

/-- Every thread is joined before anything is released. -/
structure Waits (machines : List τ) (s : State τ) : Prop where
  place : s.main.Joins
  kills : s.kills = []
  ahead : ∀ i ∈ s.main.ahead, i ∈ machines
  joined : ∀ i ∈ machines, i ∈ s.main.toJoin ∨ s.joined i = true

omit [DecidableEq τ] in
theorem waits_start (machines : List τ) : Waits machines (start machines none) :=
  ⟨trivial, rfl, fun _ member => member, fun _ member => Or.inl member⟩

omit [DecidableEq τ] in
/-- What is gone was lent to workers that have ended. -/
theorem ended_of_gone {machines : List τ} {s : State τ} {i : τ} {what : Borrowed}
    (releases : Releases machines s) (waits : Waits machines s) (member : i ∈ machines)
    (gone : s.Gone i what) : s.ended i = true := by
  have late : ∀ left, s.main ≠ .waiting left := by
    intro left here
    cases what with
    | machine =>
      have early : s.main.Early := here ▸ trivial
      cases (releases.early early i).symm.trans gone
    | simulator =>
      rw [State.Gone, here] at gone
      exact gone
    | tables =>
      rw [State.Gone, here] at gone
      exact gone
  refine releases.joined i ((waits.joined i member).resolve_left fun left => ?_)
  cases here : s.main with
  | waiting rest => exact late rest here
  | _ =>
    rw [here] at left
    cases left

theorem waits_step {machines : List τ} {s after : State τ} {e : Event τ}
    (releases : Releases machines s) (before : Waits machines s)
    (silent : ∀ i, e ≠ .throws i) (step : ShutdownStep machines s e after) :
    Waits machines after := by
  have ended := fun {i what} => @ended_of_gone _ machines s i what releases before
  obtain ⟨place, kills, ahead, joined⟩ := before
  cases step with
  | reaps => exact ⟨place, kills, ahead, joined⟩
  | forgets => exact ⟨place, kills, ahead, joined⟩
  | uses => exact ⟨place, kills, ahead, joined⟩
  | trespasses _ member runs gone => cases runs.symm.trans (ended member gone)
  | @finishes i _ member runs known =>
    cases held : s.held i with
    | true => exact ⟨place, kills, ahead, joined⟩
    | false =>
      have gone : s.Gone i .machine := held
      cases runs.symm.trans (ended member gone)
  | @throws i _ member runs => exact absurd rfl (silent i)
  | @joins i left here done =>
    rw [here] at ahead joined
    refine ⟨trivial, kills, fun k later => ahead k (List.mem_cons_of_mem i later),
      fun k member => ?_⟩
    by_cases same : k = i
    · exact Or.inr (by rw [same]; exact update_self i true s.joined)
    · rcases joined k member with left' | was
      · exact Or.inl ((List.mem_cons.mp left').resolve_left same)
      · exact Or.inr ((update_of_ne same true s.joined).trans was)
  | waited here =>
    rw [here] at joined
    exact ⟨trivial, kills, fun _ member => member, joined⟩
  | joinsPrime here done =>
    rw [here] at place
    exact place.elim
  | checks here known =>
    rw [here] at place
    exact place.elim
  | refuses here forgotten =>
    rw [here] at place
    exact place.elim
  | kills here hits =>
    rw [here] at place
    exact place.elim
  | killed here =>
    rw [here] at place
    exact place.elim
  | @releases i left here =>
    rw [here] at ahead joined
    have was := (joined i (ahead i List.mem_cons_self)).resolve_left List.not_mem_nil
    have fine : ¬(s.ended i = true ∧ s.joined i = false) := by
      rintro ⟨-, unjoined⟩
      cases was.symm.trans unjoined
    rw [if_neg fine]
    exact ⟨trivial, kills, fun k later => ahead k (List.mem_cons_of_mem i later), joined⟩
  | clears here =>
    rw [here] at joined
    exact ⟨trivial, kills, fun k member => absurd member List.not_mem_nil, joined⟩
  | unloads here =>
    rw [here] at joined
    exact ⟨trivial, kills, fun k member => absurd member List.not_mem_nil, joined⟩
  | exits here =>
    rw [here] at joined
    exact ⟨trivial, kills, fun k member => absurd member List.not_mem_nil, joined⟩

theorem waits_run {machines : List τ} {past : List (Event τ)} {s : State τ}
    (path : Path (ShutdownStep machines) (start machines none) past s) (quiet : Quiet past) :
    Waits machines s := by
  refine (history_invariant (fun past s => Quiet past → Waits machines s ∧ Releases machines s)
    ?_ ?_ path quiet).1
  · exact fun _ => ⟨waits_start machines, releases_start machines none⟩
  · intro past t e u before step quiet
    obtain ⟨front, silent⟩ := quiet_snoc quiet
    obtain ⟨waits, releases⟩ := before front
    exact ⟨waits_step releases waits silent step, releases_step releases step⟩

/-- Some quiet steps lead from one state to another one. -/
def Leads (machines : List τ) (s t : State τ) : Prop :=
  ∃ more, Quiet more ∧ Path (ShutdownStep machines) s more t

theorem leads_refl (machines : List τ) (s : State τ) : Leads machines s s :=
  ⟨[], fun _ => List.not_mem_nil, .start⟩

theorem leads_step {machines : List τ} {s t u : State τ} {e : Event τ}
    (silent : ∀ i, e ≠ .throws i) (first : ShutdownStep machines s e t)
    (rest : Leads machines t u) : Leads machines s u := by
  obtain ⟨more, quiet, path⟩ := rest
  refine ⟨e :: more, fun i member => ?_, path_cons first path⟩
  rcases List.mem_cons.mp member with same | later
  · exact silent i same.symm
  · exact quiet i later

theorem leads_once {machines : List τ} {s t : State τ} {e : Event τ}
    (silent : ∀ i, e ≠ .throws i) (step : ShutdownStep machines s e t) : Leads machines s t :=
  leads_step silent step (leads_refl machines t)

theorem leads_trans {machines : List τ} {s t u : State τ} (front : Leads machines s t)
    (back : Leads machines t u) : Leads machines s u := by
  obtain ⟨first, quiet, path⟩ := front
  obtain ⟨second, quiet', path'⟩ := back
  refine ⟨first ++ second, fun i member => ?_, path_trans path path'⟩
  rcases List.mem_append.mp member with here | there
  · exact quiet i here
  · exact quiet' i there

/-- A worker whose handle is held can end without harm, whatever its child has come to. -/
theorem leads_finish {machines : List τ} {s : State τ} {i : τ} (alive : s.main.Alive)
    (member : i ∈ machines) (held : s.held i = true) :
    ∃ t, Leads machines s t ∧ t.main = s.main ∧ t.joined = s.joined ∧ t.held = s.held ∧
      t.ended i = true := by
  cases runs : s.ended i with
  | true => exact ⟨s, leads_refl machines s, rfl, rfl, rfl, runs⟩
  | false =>
    have ends : ∀ t : State τ, t.main = s.main → t.joined = s.joined → t.held = s.held →
        t.ended = s.ended → t.children i = .forgotten →
        ∃ u, Leads machines t u ∧ u.main = s.main ∧ u.joined = s.joined ∧ u.held = s.held ∧
          u.ended i = true := by
      intro t main joined held' ended forgotten
      have alive' : t.main.Alive := by rwa [main]
      have holds : t.held i = true := by rw [held', held]
      have runs' : t.ended i = false := by rw [ended, runs]
      have known : t.children i ≠ .reaped := by
        rw [forgotten]
        nofun
      refine ⟨_, leads_once (by nofun) (.finishes alive' member runs' known), ?_, joined, held',
        update_self i _ t.ended⟩
      rw [if_pos holds, main]
    have forgets : ∀ t : State τ, t.main = s.main → t.joined = s.joined → t.held = s.held →
        t.ended = s.ended → t.children i = .reaped →
        ∃ u, Leads machines t u ∧ u.main = s.main ∧ u.joined = s.joined ∧ u.held = s.held ∧
          u.ended i = true := by
      intro t main joined held' ended reaped
      have alive' : t.main.Alive := by rwa [main]
      have runs' : t.ended i = false := by rw [ended, runs]
      obtain ⟨u, rest, same⟩ := ends { t with children := update t.children i .forgotten } main
        joined held' ended (update_self i _ t.children)
      exact ⟨u, leads_step (by nofun) (.forgets alive' member runs' reaped) rest, same⟩
    cases child : s.children i with
    | forgotten => exact ends s rfl rfl rfl rfl child
    | reaped => exact forgets s rfl rfl rfl rfl child
    | here =>
      obtain ⟨t, rest, same⟩ := forgets { s with children := update s.children i .reaped } rfl
        rfl rfl rfl (update_self i _ s.children)
      exact ⟨t, leads_step (by nofun) (.reaps alive member runs child) rest, same⟩

/-- Once the machines are released nothing is in the way of the end. -/
theorem leads_closed {machines : List τ} {s : State τ} (here : s.main = .leaving []) :
    ∃ t, Leads machines s t ∧ t.main = .exited :=
  ⟨_, leads_step (by nofun) (.clears here) <| leads_step (by nofun) (.unloads rfl) <|
    leads_once (by nofun) (.exits rfl), rfl⟩

theorem leads_released {machines : List τ} {left : List τ} :
    ∀ {s : State τ}, s.main = .leaving left → (∀ i ∈ left, s.joined i = true) →
      ∃ t, Leads machines s t ∧ t.main = .exited := by
  induction left with
  | nil =>
    intro s here joined
    exact leads_closed here
  | cons i left ih =>
    intro s here joined
    obtain ⟨was, later⟩ := List.forall_mem_cons.mp joined
    have fine : ¬(s.ended i = true ∧ s.joined i = false) := by
      rintro ⟨-, unjoined⟩
      cases was.symm.trans unjoined
    have first : ShutdownStep machines s (.releases i) _ := .releases here
    rw [if_neg fine] at first
    obtain ⟨t, rest, exited⟩ := @ih
      { s with held := update s.held i false, main := .leaving left } rfl later
    exact ⟨t, leads_step (by nofun) first rest, exited⟩

theorem leads_joined {machines : List τ} {left : List τ} :
    ∀ {s : State τ}, s.main = .waiting left → (∀ i, s.held i = true) →
      (∀ i ∈ left, i ∈ machines) → (∀ i ∈ machines, i ∈ left ∨ s.joined i = true) →
      ∃ t, Leads machines s t ∧ t.main = .exited := by
  induction left with
  | nil =>
    intro s here held inside joined
    have all : ∀ i ∈ machines, s.joined i = true := fun i member =>
      (joined i member).resolve_left List.not_mem_nil
    obtain ⟨t, rest, exited⟩ := @leads_released _ _ machines machines
      { s with main := .leaving machines } rfl all
    exact ⟨t, leads_step (by nofun) (.waited here) rest, exited⟩
  | cons i left ih =>
    intro s here held inside joined
    have alive : s.main.Alive := by
      rw [here]
      trivial
    obtain ⟨t, front, main, joined', held', done⟩ :=
      leads_finish alive (inside i List.mem_cons_self) (held i)
    obtain ⟨u, rest, exited⟩ := @ih
      { t with joined := update t.joined i true, main := .waiting left } rfl
      (fun k => by rw [held', held]) (fun k later => inside k (List.mem_cons_of_mem i later))
      (fun k member => by
        by_cases same : k = i
        · exact Or.inr (by rw [same]; exact update_self i true t.joined)
        · rcases joined k member with waits | was
          · exact Or.inl ((List.mem_cons.mp waits).resolve_left same)
          · exact Or.inr ((update_of_ne same true t.joined).trans (by rw [joined', was])))
    have last : ShutdownStep machines t (.joins i) _ := .joins (main.trans here) done
    exact ⟨u, leads_trans front (leads_step (by nofun) last rest), exited⟩

/-- The process without a prime replica is never aborted, uses nothing that is gone and kills
nobody. It ends only after all workers have ended and been joined, and as long as it runs it
can still end, for a worker may leave its loop at any time. -/
theorem waits_for_all {machines : List τ} {past : List (Event τ)} {s : State τ}
    (path : Path (ShutdownStep machines) (start machines none) past s) (quiet : Quiet past) :
    s.main ≠ .aborted ∧ s.main ≠ .undefined ∧ s.kills = [] ∧
      (s.main = .exited → ∀ i ∈ machines, s.ended i = true ∧ s.joined i = true) ∧
      (s.main.Alive → ∃ more t, Quiet more ∧ Path (ShutdownStep machines) s more t ∧
        t.main = .exited) := by
  have waits := waits_run path quiet
  have releases := releases_run path
  have place := waits.place
  refine ⟨fun dead => ?_, fun undefined => ?_, waits.kills, fun exited i member => ?_,
    fun alive => ?_⟩
  · rw [dead] at place
    exact place
  · rw [undefined] at place
    exact place
  · have joined := waits.joined i member
    rw [exited] at joined
    have was := joined.resolve_left List.not_mem_nil
    exact ⟨releases.joined i was, was⟩
  · suffices ∃ t, Leads machines s t ∧ t.main = .exited by
      obtain ⟨t, ⟨more, quiet', path'⟩, exited⟩ := this
      exact ⟨more, t, quiet', path', exited⟩
    cases main : s.main with
    | waiting left =>
      have ahead := waits.ahead
      have joined := waits.joined
      have early := releases.early
      rw [main] at ahead joined early
      exact leads_joined main (early trivial) ahead joined
    | leaving left =>
      refine leads_released main fun i member => ?_
      have ahead := waits.ahead
      rw [main] at ahead
      have joined := waits.joined i (ahead i member)
      rw [main] at joined
      exact joined.resolve_left List.not_mem_nil
    | closing =>
      exact ⟨_, leads_step (by nofun) (.unloads main) (leads_once (by nofun) (.exits rfl)), rfl⟩
    | ending => exact ⟨_, leads_once (by nofun) (.exits main), rfl⟩
    | exited =>
      rw [main] at alive
      exact alive.elim
    | aborted =>
      rw [main] at alive
      exact alive.elim
    | undefined =>
      rw [main] at alive
      exact alive.elim
    | waitingPrime p =>
      rw [main] at place
      exact place.elim
    | killing left =>
      rw [main] at place
      exact place.elim
    | checked i left =>
      rw [main] at place
      exact place.elim

/-- Two machines, the second of which ends while the first one is waited for. -/
theorem waits_for_all_two :
    ∃ past s, Path (ShutdownStep [0, 1]) (start [0, 1] none) past s ∧ s.ended 1 = true ∧
      s.ended 0 = false ∧ s.main ≠ .aborted ∧ s.kills = [] := by
  have path : ∃ s, Path (ShutdownStep [0, 1]) (start [0, 1] none)
      [.reaps 1, .forgets 1, .finishes 1] s ∧ s.ended 1 = true ∧ s.ended 0 = false :=
    ⟨_, path_cons (.reaps trivial (by decide) rfl rfl) <|
      path_cons (.forgets trivial (by decide) rfl rfl) <|
      path_cons (.finishes trivial (by decide) rfl (by decide)) .start, rfl, rfl⟩
  obtain ⟨s, path, done, runs⟩ := path
  have quiet : Quiet [.reaps 1, .forgets 1, .finishes 1] := by
    intro i member
    simp at member
  obtain ⟨alive, -, silent, -, -⟩ := waits_for_all path quiet
  exact ⟨_, s, path, done, runs, alive, silent⟩

end Steps

end Shutdown
