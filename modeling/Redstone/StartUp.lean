import Redstone.Barriers

/-!
# The start-up handshake

`ptrace_run` keeps the barrier in its own frame, meets the worker at it and returns, which
destroys the barrier. Here the steps of `wait` are finer than in a monitor: taking the
lock, blocking, relocking and unlocking are apart, because the destruction may come
between them. Who arrives last has nothing more to wait for, while the other thread has
yet to relock the mutex and read the epoch.
-/

namespace StartUp

open MachineWords Monitors Barriers StepRuns

inductive Thread where
  | main
  | worker
  deriving DecidableEq

/-- Where a thread stands in `b.wait()`. With `arrived` and `leaving` it holds the lock. -/
inductive Pc where
  | before
  | arrived (epoch : U64)
  | asleep (epoch : U64)
  | woken (epoch : U64)
  | leaving
  | returned
  deriving DecidableEq

namespace Pc

def holds : Pc → Bool
  | .arrived _ => true
  | .leaving => true
  | _ => false

def rouse : Pc → Pc
  | .asleep epoch => .woken epoch
  | pc => pc

end Pc

structure State where
  b : Barrier
  main : Pc
  worker : Pc
  destroyed : Bool
  deriving DecidableEq

namespace State

def start : State := ⟨made 2, .before, .before, false⟩

def pc (s : State) : Thread → Pc
  | .main => s.main
  | .worker => s.worker

def setPc (s : State) (pc : Pc) : Thread → State
  | .main => { s with main := pc }
  | .worker => { s with worker := pc }

/-- Nobody holds the lock. -/
def free (s : State) : Bool := !s.main.holds && !s.worker.holds

/-- What a thread did under the lock, which it keeps. -/
def proceed (s : State) (t : Thread) (out : Outcome Barrier U64 U64) : State :=
  let s := match out.signal with
    | .all => { s with main := s.main.rouse, worker := s.worker.rouse }
    | _ => s
  let pc := match out.next with
    | .leaves _ => .leaving
    | .waits epoch => .arrived epoch
  { s with b := out.shared }.setPc pc t

end State

inductive Event where
  | arrive (t : Thread)
  | block (t : Thread)
  | wake (t : Thread)
  | relock (t : Thread)
  | unlock (t : Thread)
  | destroy
  deriving DecidableEq

/-- Lock and arrive, block releasing the lock, wake up, relock and recheck the epoch,
unlock and return; and `ptrace_run` returns, which destroys `b`. -/
def step (s : State) : Event → Option State
  | .arrive t => if s.pc t = .before ∧ s.free then some (s.proceed t (arrive s.b)) else none
  | .block t =>
    match s.pc t with
    | .arrived epoch => some (s.setPc (.asleep epoch) t)
    | _ => none
  | .wake t =>
    match s.pc t with
    | .asleep epoch => some (s.setPc (.woken epoch) t)
    | _ => none
  | .relock t =>
    match s.pc t with
    | .woken epoch => if s.free then some (s.proceed t (recheck epoch s.b)) else none
    | _ => none
  | .unlock t => if s.pc t = .leaving then some (s.setPc .returned t) else none
  | .destroy =>
    if s.main = .returned ∧ s.destroyed = false then some { s with destroyed := true } else none

def StartStep (s : State) (e : Event) (after : State) : Prop := step s e = some after

/-- The worker has yet to take a step of `b.wait()`, and `b` is gone. -/
def Dangling (s : State) : Prop := s.destroyed = true ∧ s.worker ≠ .returned

instance (s : State) : Decidable (Dangling s) := inferInstanceAs (Decidable (_ ∧ _))

/-- An arrival of `ptrace_run` is not the last one. -/
def MainFirst (s : State) (e : Event) : Prop := e = .arrive .main → s.b.current ≠ 1

/-- A thread that arrived first and waits. -/
inductive Waiting : Pc → Prop where
  | arrived : Waiting (.arrived 0)
  | asleep : Waiting (.asleep 0)
  | woken : Waiting (.woken 0)

/-- How far `ptrace_run` is on its way out. -/
inductive Leaving : Pc → Bool → Prop where
  | woken : Leaving (.woken 0) false
  | leaving : Leaving .leaving false
  | returned (destroyed : Bool) : Leaving .returned destroyed

/-- The states of the runs in which `ptrace_run` does not arrive last. -/
inductive Phase : State → Prop where
  | start : Phase ⟨⟨2, 2, 0⟩, .before, .before, false⟩
  | mainWaits {pc : Pc} (waiting : Waiting pc) : Phase ⟨⟨2, 1, 0⟩, pc, .before, false⟩
  | workerWaits {pc : Pc} (waiting : Waiting pc) : Phase ⟨⟨2, 1, 0⟩, .before, pc, false⟩
  | workerLeaves : Phase ⟨⟨2, 2, 1⟩, .woken 0, .leaving, false⟩
  | workerReturned {pc : Pc} {destroyed : Bool} (out : Leaving pc destroyed) :
      Phase ⟨⟨2, 2, 1⟩, pc, .returned, destroyed⟩

theorem phase_safe {s : State} (phase : Phase s) : ¬Dangling s := by
  rintro ⟨destroyed, unfinished⟩
  cases phase with
  | start => cases destroyed
  | mainWaits => cases destroyed
  | workerWaits => cases destroyed
  | workerLeaves => cases destroyed
  | workerReturned => exact unfinished rfl

theorem phase_step {s after : State} {e : Event} (phase : Phase s) (first : MainFirst s e)
    (taken : StartStep s e after) : Phase after := by
  -- in each state one or two events are enabled, and `cases taken` refutes the others
  cases phase with
  | start =>
    rcases e with (_ | _) | (_ | _) | (_ | _) | (_ | _) | (_ | _) | _ <;> cases taken
    · exact .mainWaits .arrived
    · exact .workerWaits .arrived
  | mainWaits waiting =>
    cases waiting with
    | arrived =>
      rcases e with (_ | _) | (_ | _) | (_ | _) | (_ | _) | (_ | _) | _ <;> cases taken
      exact .mainWaits .asleep
    | asleep =>
      rcases e with (_ | _) | (_ | _) | (_ | _) | (_ | _) | (_ | _) | _ <;> cases taken
      · exact .workerLeaves
      · exact .mainWaits .woken
    | woken =>
      rcases e with (_ | _) | (_ | _) | (_ | _) | (_ | _) | (_ | _) | _ <;> cases taken
      · exact .workerLeaves
      · exact .mainWaits .arrived
  | workerWaits waiting =>
    cases waiting with
    | arrived =>
      rcases e with (_ | _) | (_ | _) | (_ | _) | (_ | _) | (_ | _) | _ <;> cases taken
      exact .workerWaits .asleep
    | asleep =>
      rcases e with (_ | _) | (_ | _) | (_ | _) | (_ | _) | (_ | _) | _ <;> cases taken
      · exact absurd rfl (first rfl)
      · exact .workerWaits .woken
    | woken =>
      rcases e with (_ | _) | (_ | _) | (_ | _) | (_ | _) | (_ | _) | _ <;> cases taken
      · exact absurd rfl (first rfl)
      · exact .workerWaits .arrived
  | workerLeaves =>
    rcases e with (_ | _) | (_ | _) | (_ | _) | (_ | _) | (_ | _) | _ <;> cases taken
    exact .workerReturned .woken
  | @workerReturned pc destroyed out =>
    cases out with
    | woken =>
      rcases e with (_ | _) | (_ | _) | (_ | _) | (_ | _) | (_ | _) | _ <;> cases taken
      exact .workerReturned .leaving
    | leaving =>
      rcases e with (_ | _) | (_ | _) | (_ | _) | (_ | _) | (_ | _) | _ <;> cases taken
      exact .workerReturned (.returned false)
    | returned =>
      cases destroyed with
      | false =>
        rcases e with (_ | _) | (_ | _) | (_ | _) | (_ | _) | (_ | _) | _ <;> cases taken
        exact .workerReturned (.returned true)
      | true => rcases e with (_ | _) | (_ | _) | (_ | _) | (_ | _) | (_ | _) | _ <;> cases taken

theorem rouse_before {pc : Pc} (before : pc.rouse = .before) : pc = .before := by
  cases pc with
  | before => rfl
  | asleep epoch => cases before
  | arrived epoch => cases before
  | woken epoch => cases before
  | leaving => cases before
  | returned => cases before

theorem proceed_before {s : State} {t : Thread} {out : Outcome Barrier U64 U64}
    (before : (s.proceed t out).main = .before) : s.main = .before ∧ t ≠ .main := by
  obtain ⟨shared, signal, next⟩ := out
  cases t with
  | main => cases next <;> cases before
  | worker =>
    refine ⟨?_, Thread.noConfusion⟩
    cases signal with
    | all => exact rouse_before before
    | none => exact before
    | one => exact before

/-- What a step does, by its event. -/
inductive Taken (s : State) : Event → State → Prop where
  | arrive {t : Thread} (here : s.pc t = .before) (free : s.free = true) :
      Taken s (.arrive t) (s.proceed t (arrive s.b))
  | block {t : Thread} {epoch : U64} (here : s.pc t = .arrived epoch) :
      Taken s (.block t) (s.setPc (.asleep epoch) t)
  | wake {t : Thread} {epoch : U64} (here : s.pc t = .asleep epoch) :
      Taken s (.wake t) (s.setPc (.woken epoch) t)
  | relock {t : Thread} {epoch : U64} (here : s.pc t = .woken epoch) (free : s.free = true) :
      Taken s (.relock t) (s.proceed t (recheck epoch s.b))
  | unlock {t : Thread} (here : s.pc t = .leaving) : Taken s (.unlock t) (s.setPc .returned t)
  | destroy (here : s.main = .returned) : Taken s .destroy { s with destroyed := true }

theorem taken_of_step {s after : State} {e : Event} (taken : StartStep s e after) :
    Taken s e after := by
  cases e with
  | arrive t =>
    by_cases enabled : s.pc t = .before ∧ s.free
    · rw [StartStep, step, if_pos enabled] at taken
      exact Option.some.inj taken ▸ .arrive enabled.1 enabled.2
    · rw [StartStep, step, if_neg enabled] at taken
      cases taken
  | block t =>
    rw [StartStep, step] at taken
    cases here : s.pc t <;> rw [here] at taken <;> cases taken
    exact .block here
  | wake t =>
    rw [StartStep, step] at taken
    cases here : s.pc t <;> rw [here] at taken <;> cases taken
    exact .wake here
  | relock t =>
    rw [StartStep, step] at taken
    cases here : s.pc t <;> rw [here] at taken <;> try cases taken
    by_cases free : s.free = true
    · simp only [if_pos free, Option.some.injEq] at taken
      exact taken ▸ .relock here free
    · simp only [if_neg free] at taken
      cases taken
  | unlock t =>
    by_cases here : s.pc t = .leaving
    · rw [StartStep, step, if_pos here] at taken
      exact Option.some.inj taken ▸ .unlock here
    · rw [StartStep, step, if_neg here] at taken
      cases taken
  | destroy =>
    by_cases done : s.main = .returned ∧ s.destroyed = false
    · rw [StartStep, step, if_pos done] at taken
      exact Option.some.inj taken ▸ .destroy done.1
    · rw [StartStep, step, if_neg done] at taken
      cases taken

/-- No thread goes back to before its call. -/
theorem main_before {s after : State} {e : Event} (taken : StartStep s e after)
    (before : after.main = .before) : s.main = .before ∧ e ≠ .arrive .main := by
  have moved : ∀ {t : Thread} {pc : Pc}, (s.setPc pc t).main = .before → pc ≠ .before →
      s.main = .before := by
    intro t pc here other
    cases t with
    | main => exact absurd here other
    | worker => exact here
  cases taken_of_step taken with
  | arrive =>
    obtain ⟨main, other⟩ := proceed_before before
    exact ⟨main, fun same => other (Event.arrive.inj same)⟩
  | block => exact ⟨moved before Pc.noConfusion, Event.noConfusion⟩
  | wake => exact ⟨moved before Pc.noConfusion, Event.noConfusion⟩
  | relock => exact ⟨(proceed_before before).1, Event.noConfusion⟩
  | unlock => exact ⟨moved before Pc.noConfusion, Event.noConfusion⟩
  | destroy => exact ⟨before, Event.noConfusion⟩

/-- Until `ptrace_run` arrives, every run is one in which it may still arrive first. -/
theorem phase_before {past : List Event} {s : State} (path : Path StartStep .start past s)
    (before : s.main = .before) : Phase s := by
  refine history_invariant (fun _ s => s.main = .before → Phase s) (fun _ => .start) ?_ path
    before
  intro past s e after phase taken before
  obtain ⟨earlier, other⟩ := main_before taken before
  exact phase_step (phase earlier) (fun same => absurd same other) taken

/-- When `ptrace_run` arrives last, it can leave before the worker does. -/
theorem last_dangles {s after : State} (phase : Phase s) (last : s.b.current = 1)
    (taken : StartStep s (.arrive .main) after) :
    ∃ rest bad, Path StartStep after rest bad ∧ Dangling bad := by
  have leaves : ∀ {t : State}, t = ⟨⟨2, 2, 1⟩, .leaving, .woken 0, false⟩ →
      ∃ rest bad, Path StartStep t rest bad ∧ Dangling bad := by
    rintro t rfl
    have unlocked : StartStep ⟨⟨2, 2, 1⟩, .leaving, .woken 0, false⟩ (.unlock .main)
        ⟨⟨2, 2, 1⟩, .returned, .woken 0, false⟩ := rfl
    have destroyed : StartStep ⟨⟨2, 2, 1⟩, .returned, .woken 0, false⟩ .destroy
        ⟨⟨2, 2, 1⟩, .returned, .woken 0, true⟩ := rfl
    exact ⟨_, _, (Path.start.snoc unlocked).snoc destroyed, by decide⟩
  apply leaves
  cases phase with
  | start => exact absurd last (by decide)
  | mainWaits waiting => cases waiting <;> cases taken
  | workerWaits waiting =>
    cases waiting with
    | arrived => cases taken
    | asleep =>
      cases taken
      rfl
    | woken =>
      cases taken
      rfl
  | workerLeaves => cases taken
  | workerReturned out => cases out <;> cases taken

/-- In every run in which `ptrace_run` does not arrive last, the worker has no step left
in the barrier once that is destroyed; and whenever `ptrace_run` does arrive last, the run
can go on to a state where the worker has one. -/
theorem handshake_safe_unless_last (past : List Event) (s : State) :
    (Path (fun s e after => StartStep s e after ∧ MainFirst s e) .start past s → ¬Dangling s) ∧
      (Path StartStep .start past s → s.b.current = 1 →
        ∀ after, StartStep s (.arrive .main) after →
          ∃ rest bad, Path StartStep after rest bad ∧ Dangling bad) := by
  constructor
  · intro path
    have phase : Phase s := history_invariant (fun _ s => Phase s) .start
      (fun _ _ _ _ phase step => phase_step phase step.2 step.1) path
    exact phase_safe phase
  · intro path last after taken
    have before : s.main = .before := by
      cases taken_of_step taken with
      | arrive here => exact here
    exact last_dangles (phase_before path before) last taken

/-- The worker arrives first and blocks. `ptrace_run` arrives, notifies it, returns and
destroys the barrier before the worker has relocked the mutex. -/
theorem worker_left_behind :
    ∃ past s, Path StartStep .start past s ∧ Dangling s ∧ s.worker = .woken 0 := by
  have arrives : StartStep .start (.arrive .worker)
      ⟨⟨2, 1, 0⟩, .before, .arrived 0, false⟩ := rfl
  have blocks : StartStep ⟨⟨2, 1, 0⟩, .before, .arrived 0, false⟩ (.block .worker)
      ⟨⟨2, 1, 0⟩, .before, .asleep 0, false⟩ := rfl
  have ends : StartStep ⟨⟨2, 1, 0⟩, .before, .asleep 0, false⟩ (.arrive .main)
      ⟨⟨2, 2, 1⟩, .leaving, .woken 0, false⟩ := rfl
  have returns : StartStep ⟨⟨2, 2, 1⟩, .leaving, .woken 0, false⟩ (.unlock .main)
      ⟨⟨2, 2, 1⟩, .returned, .woken 0, false⟩ := rfl
  have destroys : StartStep ⟨⟨2, 2, 1⟩, .returned, .woken 0, false⟩ .destroy
      ⟨⟨2, 2, 1⟩, .returned, .woken 0, true⟩ := rfl
  have path := ((((Path.start.snoc arrives).snoc blocks).snoc ends).snoc returns).snoc destroys
  exact ⟨_, _, path, by decide, rfl⟩

/-- `ptrace_run` arrives first; when it destroys the barrier the worker is out. -/
theorem handshake_safe_main_first :
    ∃ past s, Path StartStep .start past s ∧ s.destroyed = true ∧ ¬Dangling s := by
  let first (s : State) (e : Event) (after : State) : Prop := StartStep s e after ∧ MainFirst s e
  have arrives : first .start (.arrive .main) ⟨⟨2, 1, 0⟩, .arrived 0, .before, false⟩ :=
    ⟨rfl, fun _ => by decide⟩
  have blocks : first ⟨⟨2, 1, 0⟩, .arrived 0, .before, false⟩ (.block .main)
      ⟨⟨2, 1, 0⟩, .asleep 0, .before, false⟩ := ⟨rfl, fun other => nomatch other⟩
  have ends : first ⟨⟨2, 1, 0⟩, .asleep 0, .before, false⟩ (.arrive .worker)
      ⟨⟨2, 2, 1⟩, .woken 0, .leaving, false⟩ := ⟨rfl, fun other => nomatch other⟩
  have out : first ⟨⟨2, 2, 1⟩, .woken 0, .leaving, false⟩ (.unlock .worker)
      ⟨⟨2, 2, 1⟩, .woken 0, .returned, false⟩ := ⟨rfl, fun other => nomatch other⟩
  have relocks : first ⟨⟨2, 2, 1⟩, .woken 0, .returned, false⟩ (.relock .main)
      ⟨⟨2, 2, 1⟩, .leaving, .returned, false⟩ := ⟨rfl, fun other => nomatch other⟩
  have returns : first ⟨⟨2, 2, 1⟩, .leaving, .returned, false⟩ (.unlock .main)
      ⟨⟨2, 2, 1⟩, .returned, .returned, false⟩ := ⟨rfl, fun other => nomatch other⟩
  have destroys : first ⟨⟨2, 2, 1⟩, .returned, .returned, false⟩ .destroy
      ⟨⟨2, 2, 1⟩, .returned, .returned, true⟩ := ⟨rfl, fun other => nomatch other⟩
  have path := ((((((Path.start.snoc arrives).snoc blocks).snoc ends).snoc out).snoc
    relocks).snoc returns).snoc destroys
  have all : Path StartStep .start _ ⟨⟨2, 2, 1⟩, .returned, .returned, true⟩ :=
    ((((((Path.start.snoc arrives.1).snoc blocks.1).snoc ends.1).snoc out.1).snoc
      relocks.1).snoc returns.1).snoc destroys.1
  exact ⟨_, _, all, rfl, (handshake_safe_unless_last _ _).1 path⟩

end StartUp
