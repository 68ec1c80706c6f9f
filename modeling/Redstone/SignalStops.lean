import Mathlib.Logic.Relation
import Redstone.StepRuns
import Redstone.TraceLoop

/-!
# Signals of a traced child

A signal stops a traced child before it is delivered, and it reaches the child only if the
request that resumes the child carries its number. `ptrace_worker` resumes the child in
three places, after whatever stop `waitpid` reports, and always through
`sys::ptrace::syscall`. Here the stops come in any order; what the loop does with those of
system calls is in `TraceLoop`.
-/

namespace SignalStops

open MachineWords StepRuns
open TraceLoop (Args Regs RunState HookResult SIGTRAP SYS_gettid)

universe u
variable {ε : Type u}

def SIGKILL : Nat := 9
def SIGTERM : Nat := 15
def PTRACE_EVENT_EXEC : Nat := 4

/-- A signal that stops the child before it is delivered. `SIGKILL` does not. -/
structure Signal where
  number : Nat
  positive : 0 < number
  small : number ≤ 64
  stops : number ≠ SIGKILL
  deriving DecidableEq

/-- What `waitpid` reports of the child; with the stop of a system call, what the worker
then reads of it. -/
inductive Report where
  | syscallStop (entry : Bool) (regs : Regs)
  | execEvent
  | signalStop (signal : Signal)
  | terminated (signal : Nat) (positive : 0 < signal) (small : signal ≤ 64) (core : Bool)
  | exited (code : Byte)

/-- The status word, with `PTRACE_O_TRACESYSGOOD` and `PTRACE_O_TRACEEXEC`. -/
def Report.status : Report → Nat
  | syscallStop _ _ => (0x80 ||| SIGTRAP) * 0x100 + 0x7f
  | execEvent => (SIGTRAP ||| PTRACE_EVENT_EXEC <<< 8) * 0x100 + 0x7f
  | signalStop signal => signal.number * 0x100 + 0x7f
  | terminated signal _ _ core => signal + if core then 0x80 else 0
  | exited code => code.toNat * 0x100

/-- The state that `child::wait` stores, none if it throws. -/
def wait (status : Nat) : Option RunState :=
  if status = 0xffff then some .running
  else if status % 0x100 = 0x7f then some (.stopped (status / 0x100 % 0x100))
  else if status % 0x80 = 0 then some (.exited (status / 0x100 % 0x100))
  else if status % 0x80 ≠ 0x7f then some (.terminated (status % 0x80))
  else none

/-! ## The worker -/

/-- A ptrace request. `resume` is `PTRACE_SYSCALL`, and its last argument is the signal that
the child gets, none if it is zero. -/
inductive Request where
  | resume (data : Nat)
  | getSyscallInfo
  | getRegs
  | setRegs (regs : Regs)

def syscall : Request := .resume 0

/-- Where the worker waits for the child. -/
inductive Place where
  | execWait
  | replacing (regs : Regs) (result : U64)
  | loop
  | ended

/-- What the worker depends on. `removeVdso` reads and writes words of the stopped child;
it is none if one of them throws. -/
structure Tracer (ε : Type u) where
  removeVdso : ε → Option ε
  getHook : U64 → Option (Args → ε → HookResult × ε)

/-- The requests up to the next wait, and where that is. -/
structure Reaction (ε : Type u) where
  requests : List Request
  place : Place
  env : ε

/-- More requests to the child; when it is gone its process id is, and the first one throws. -/
def proceed (state : RunState) (next : Reaction ε) : Reaction ε :=
  match state with
  | .terminated _ => ⟨[], .ended, next.env⟩
  | .exited _ => ⟨[], .ended, next.env⟩
  | _ => next

/-- `handle_trapped`, up to the wait of `replace_syscall_with_result` or else that of the
next pass. -/
def handleTrapped (t : Tracer ε) (r : Report) (env : ε) : Reaction ε :=
  match r with
  | .syscallStop true regs =>
    match t.getHook regs.origRax with
    | none => ⟨[.getSyscallInfo, syscall], .loop, env⟩
    | some hook =>
      match hook regs.args env with
      | (.passthrough, env) => ⟨[.getSyscallInfo, syscall], .loop, env⟩
      | (.handled result, env) =>
        let regs := { regs with origRax := SYS_gettid, rax := SYS_gettid }
        ⟨[.getSyscallInfo, .getRegs, .setRegs regs, syscall], .replacing regs result, env⟩
  | _ => ⟨[.getSyscallInfo, syscall], .loop, env⟩

/-- What the worker does after a report. -/
def react (t : Tracer ε) (place : Place) (r : Report) (env : ε) : Reaction ε :=
  match wait r.status with
  | none => ⟨[], .ended, env⟩
  | some state =>
    match place with
    | .execWait =>
      if r.status / 0x100 = SIGTRAP ||| PTRACE_EVENT_EXEC <<< 8 then
        match t.removeVdso env with
        | none => ⟨[], .ended, env⟩
        | some env => ⟨[syscall], .loop, env⟩
      else proceed state ⟨[syscall], .execWait, env⟩
    | .replacing regs result =>
      proceed state
        ⟨[.setRegs { regs with origRax := result, rax := result }, syscall], .loop, env⟩
    | .loop =>
      match state with
      | .stopped signal =>
        if signal = 0x80 ||| SIGTRAP then handleTrapped t r env else ⟨[syscall], .loop, env⟩
      | state => proceed state ⟨[syscall], .loop, env⟩
    | .ended => ⟨[], .ended, env⟩

/-! ## The child and the main thread -/

/-- The signals that were sent and have not stopped the child yet, and those that it got. -/
structure State (ε : Type u) where
  place : Place
  env : ε
  pending : List Signal
  delivered : List Nat

/-- The worker's requests are part of its report. `kill` is a call of `runner_handle::kill`. -/
inductive Event where
  | report (r : Report) (requests : List Request)
  | kill (signal : Signal)

def Request.data : Request → Option Nat
  | resume data => some data
  | _ => none

/-- The signal that the next request to resume the child carries. -/
def carried (requests : List Request) : Option Nat := requests.findSome? Request.data

/-- What the child gets after a report: the signal of the next request, if it stopped for
one and the request carries one. -/
def deliver (r : Report) (requests : List Request) : List Nat :=
  match r with
  | .signalStop _ => (carried requests).toList.filter fun data => data ≠ 0
  | _ => []

def Report.signal : Report → Option Signal
  | signalStop signal => some signal
  | _ => none

inductive TraceStep (t : Tracer ε) : State ε → Event → State ε → Prop where
  | report {s : State ε} (r : Report) (waits : s.place ≠ .ended) :
      TraceStep t s (.report r (react t s.place r s.env).requests)
        { place := (react t s.place r s.env).place
          env := (react t s.place r s.env).env
          pending := r.signal.elim s.pending s.pending.erase
          delivered := s.delivered ++ deliver r (react t s.place r s.env).requests }
  | kill {s : State ε} (signal : Signal) (waits : s.place ≠ .ended) :
      TraceStep t s (.kill signal) { s with pending := s.pending ++ [signal] }

/-- The worker has resumed the child once and waits for its `execve`. -/
def State.start (env : ε) : State ε := ⟨.execWait, env, [], []⟩

def Event.signal : Event → Option Signal
  | report r _ => r.signal
  | kill _ => none

/-- The signals that stopped the child. -/
def reported (past : List Event) : List Signal := past.filterMap Event.signal

/-- Each signal that stopped the child is carried by the next request, and the child got
them all. -/
structure Delivers (past : List Event) (s : State ε) : Prop where
  carried : ∀ signal requests, .report (.signalStop signal) requests ∈ past →
    carried requests = some signal.number
  delivered : s.delivered = (reported past).map Signal.number

/-! ## Stops of signals -/

theorem wait_stopped {status signal : Nat} (running : status ≠ 0xffff)
    (stopped : status % 0x100 = 0x7f) (number : status / 0x100 % 0x100 = signal) :
    wait status = some (.stopped signal) := by
  rw [wait, if_neg running, if_pos stopped, number]

theorem status_signalStop (signal : Signal) :
    (Report.signalStop signal).status = signal.number * 0x100 + 0x7f := rfl

/-- No signal is taken for the stop of a system call. -/
theorem wait_signalStop (signal : Signal) :
    wait (Report.signalStop signal).status = some (.stopped signal.number) := by
  have small := signal.small
  have status := status_signalStop signal
  generalize (Report.signalStop signal).status = word at status
  exact wait_stopped (by omega) (by omega) (by omega)

theorem not_trapped (signal : Signal) : signal.number ≠ 0x80 ||| SIGTRAP := by
  have small := signal.small
  have trap : 0x80 ||| SIGTRAP = 0x85 := by decide
  omega

theorem not_exec (signal : Signal) :
    (Report.signalStop signal).status / 0x100 ≠ SIGTRAP ||| PTRACE_EVENT_EXEC <<< 8 := by
  have small := signal.small
  have event : SIGTRAP ||| PTRACE_EVENT_EXEC <<< 8 = 0x405 := by decide
  rw [event, status_signalStop]
  omega

/-- The worker goes on after a signal, wherever it waits, and its next request to resume
the child carries none. -/
theorem react_signalStop (t : Tracer ε) {place : Place} (waits : place ≠ .ended)
    (signal : Signal) (env : ε) :
    carried (react t place (.signalStop signal) env).requests = some 0 ∧
      (react t place (.signalStop signal) env).place ≠ .ended := by
  cases place with
  | execWait =>
    simp only [react, wait_signalStop, if_neg (not_exec signal), proceed]
    exact ⟨rfl, Place.noConfusion⟩
  | replacing regs result =>
    simp only [react, wait_signalStop, proceed]
    exact ⟨rfl, Place.noConfusion⟩
  | loop =>
    simp only [react, wait_signalStop, if_neg (not_trapped signal)]
    exact ⟨rfl, Place.noConfusion⟩
  | ended => exact absurd rfl waits

/-! ## Runs -/

theorem deliver_nothing (t : Tracer ε) {place : Place} (waits : place ≠ .ended) (r : Report)
    (env : ε) : deliver r (react t place r env).requests = [] := by
  cases r with
  | signalStop signal =>
    rw [deliver, (react_signalStop t waits signal env).1]
    rfl
  | syscallStop => rfl
  | execEvent => rfl
  | terminated => rfl
  | exited => rfl

/-- After every run: no signal was delivered, each resume after one carried none, and what
`kill` sent is pending or was reported. -/
structure Swallows (past : List Event) (s : State ε) : Prop where
  delivered : s.delivered = []
  carried : ∀ signal requests, .report (.signalStop signal) requests ∈ past →
    carried requests = some 0
  sent : ∀ signal, .kill signal ∈ past → signal ∈ s.pending ∨ signal ∈ reported past

theorem reported_snoc (past : List Event) (e : Event) :
    reported (past ++ [e]) = reported past ++ e.signal.toList := filterMap_snoc Event.signal past e

/-- A sent signal leaves the pending ones only by stopping the child. -/
theorem pending_or_reported {pending : List Signal} {signal : Signal} (r : Report)
    (sent : signal ∈ pending) :
    signal ∈ r.signal.elim pending pending.erase ∨ signal ∈ r.signal.toList := by
  cases stopped : r.signal with
  | none => exact Or.inl sent
  | some other =>
    by_cases same : signal = other
    · exact Or.inr (by rw [same]; exact List.mem_singleton_self other)
    · exact Or.inl ((List.mem_erase_of_ne same).mpr sent)

theorem swallows_step {t : Tracer ε} {past : List Event} {s after : State ε} {e : Event}
    (before : Swallows past s) (taken : TraceStep t s e after) : Swallows (past ++ [e]) after := by
  cases taken with
  | report r waits =>
    refine ⟨?_, fun signal requests member => ?_, fun signal member => ?_⟩
    · change s.delivered ++ deliver r _ = []
      rw [before.delivered, deliver_nothing t waits]
      rfl
    · rcases List.mem_append.mp member with earlier | last
      · exact before.carried signal requests earlier
      · obtain ⟨rfl, rfl⟩ := Event.report.inj (List.mem_singleton.mp last)
        exact (react_signalStop t waits signal s.env).1
    · rcases List.mem_append.mp member with earlier | last
      · rw [reported_snoc]
        rcases before.sent signal earlier with pending | stopped
        · exact (pending_or_reported r pending).imp_right (List.mem_append_right _)
        · exact Or.inr (List.mem_append_left _ stopped)
      · cases List.mem_singleton.mp last
  | kill other waits =>
    refine ⟨before.delivered, fun signal requests member => ?_, fun signal member => ?_⟩
    · rcases List.mem_append.mp member with earlier | last
      · exact before.carried signal requests earlier
      · cases List.mem_singleton.mp last
    · rw [reported_snoc]
      rcases List.mem_append.mp member with earlier | last
      · rcases before.sent signal earlier with pending | stopped
        · exact Or.inl (List.mem_append_left _ pending)
        · exact Or.inr (List.mem_append_left _ stopped)
      · obtain rfl := Event.kill.inj (List.mem_singleton.mp last)
        exact Or.inl (List.mem_append_right _ (List.mem_singleton_self signal))

theorem swallows_run {t : Tracer ε} {env : ε} {past : List Event} {s : State ε}
    (path : Path (TraceStep t) (.start env) past s) : Swallows past s := by
  have start : Swallows [] (State.start env) := by
    refine ⟨rfl, fun signal requests member => ?_, fun signal member => ?_⟩
    · cases member
    · cases member
  exact history_invariant Swallows start (fun _ _ _ _ => swallows_step) path

/-- A run delivers its signals if and only if it has none. Each one that stops the child is
dropped by the next resume, so what `kill` sends stays pending or is lost. -/
theorem signals_delivered_iff (t : Tracer ε) {env : ε} {past : List Event} {s : State ε}
    (path : Path (TraceStep t) (.start env) past s) :
    (Delivers past s ↔ reported past = []) ∧
      (∀ signal requests, .report (.signalStop signal) requests ∈ past →
        carried requests = some 0) ∧
      s.delivered = [] ∧
      ∀ signal, .kill signal ∈ past → signal ∈ s.pending ∨ signal ∈ reported past := by
  have swallows := swallows_run path
  refine ⟨⟨fun delivers => ?_, fun none => ?_⟩, swallows.carried, swallows.delivered,
    swallows.sent⟩
  · have all := delivers.delivered
    rw [swallows.delivered] at all
    exact List.map_eq_nil_iff.mp all.symm
  · refine ⟨fun signal requests member => ?_, ?_⟩
    · have stopped : signal ∈ reported past := List.mem_filterMap.mpr ⟨_, member, rfl⟩
      rw [none] at stopped
      cases stopped
    · rw [swallows.delivered, none]
      rfl

def sigterm : Signal := ⟨SIGTERM, by decide, by decide, by decide⟩

/-- No hooks, and a start-up that works. -/
def plain : Tracer Unit := ⟨some, fun _ => none⟩

/-- After the exec event and without signals. -/
theorem signals_delivered_execed :
    ∃ past s, Path (TraceStep plain) (.start ()) past s ∧ s.place = .loop ∧ Delivers past s := by
  have execed : TraceStep plain (.start ()) (.report .execEvent [syscall])
      ⟨.loop, (), [], []⟩ := .report .execEvent Place.noConfusion
  have path := Path.start.snoc execed
  exact ⟨_, _, path, rfl, (signals_delivered_iff plain path).1.mpr rfl⟩

/-- The shutdown: `kill` sends `SIGTERM`, the child stops for it and is resumed without. -/
theorem sigterm_swallowed :
    ∃ past s, Path (TraceStep plain) (.start ()) past s ∧ .kill sigterm ∈ past ∧
      .report (.signalStop sigterm) [syscall] ∈ past ∧ s.pending = [] ∧ s.delivered = [] ∧
      ¬Delivers past s := by
  have execed : TraceStep plain (.start ()) (.report .execEvent [syscall])
      ⟨.loop, (), [], []⟩ := .report .execEvent Place.noConfusion
  have killed : TraceStep plain ⟨.loop, (), [], []⟩ (.kill sigterm)
      ⟨.loop, (), [sigterm], []⟩ := .kill sigterm Place.noConfusion
  have stopped : TraceStep plain ⟨.loop, (), [sigterm], []⟩
      (.report (.signalStop sigterm) [syscall]) ⟨.loop, (), [], []⟩ :=
    .report (.signalStop sigterm) Place.noConfusion
  refine ⟨_, _, ((Path.start.snoc execed).snoc killed).snoc stopped, by simp, by simp, rfl, rfl,
    fun delivers => ?_⟩
  cases delivers.delivered

/-! ## A child without signals

The worker against the child of `TraceLoop`, which stops for its system calls only: the
two descriptions of the loop make the same requests. -/

section Quiet

open TraceLoop (Machine Child resume)

/-- What `waitpid` reports of the stopped child, and what the worker reads of it. -/
def report (c : Child ε) : Report :=
  match c.phase with
  | .execEvent => .execEvent
  | .entry => .syscallStop true c.regs
  | .exit => .syscallStop false c.regs
  | .exited => .exited 0

def perform (m : Machine ε) (c : Child ε) : Request → Child ε
  | .resume _ => resume m c
  | .setRegs regs => { c with regs }
  | .getSyscallInfo => c
  | .getRegs => c

def tracer (m : Machine ε) (removeVdso : ε → Option ε) : Tracer ε := ⟨removeVdso, m.getHook⟩

/-- One report and the worker's reaction to it. -/
def answer (m : Machine ε) (removeVdso : ε → Option ε) (place : Place) (c : Child ε) :
    Place × Child ε :=
  let reaction := react (tracer m removeVdso) place (report c) c.env
  (reaction.place, reaction.requests.foldl (perform m) { c with env := reaction.env })

def Answers (m : Machine ε) (removeVdso : ε → Option ε) :
    Place × Child ε → Place × Child ε → Prop :=
  Relation.ReflTransGen fun a b => answer m removeVdso a.1 a.2 = b

theorem answers_once {m : Machine ε} {removeVdso : ε → Option ε} {place : Place} {c : Child ε}
    {next : Place × Child ε} (once : answer m removeVdso place c = next) :
    Answers m removeVdso (place, c) next := .single once

/-- Two children that differ in the log at most. -/
structure Same (c d : Child ε) : Prop where
  phase : c.phase = d.phase
  regs : c.regs = d.regs
  env : c.env = d.env

theorem Same.refl (c : Child ε) : Same c c := ⟨rfl, rfl, rfl⟩

theorem Same.trans {c d e : Child ε} (first : Same c d) (second : Same d e) : Same c e :=
  ⟨first.phase.trans second.phase, first.regs.trans second.regs, first.env.trans second.env⟩

theorem Same.relog (phase : TraceLoop.Phase) (regs : Regs) (env : ε)
    (log log' : List TraceLoop.Event) :
    Same (⟨phase, regs, env, log⟩ : Child ε) ⟨phase, regs, env, log'⟩ := ⟨rfl, rfl, rfl⟩

theorem same_resume (m : Machine ε) {c d : Child ε} (same : Same c d) :
    Same (resume m c) (resume m d) := by
  obtain ⟨phase, regs, env, log⟩ := c
  obtain ⟨phase', regs', env', log'⟩ := d
  obtain ⟨rfl, rfl, rfl⟩ := same
  cases phase with
  | execEvent => exact ⟨rfl, rfl, rfl⟩
  | exit => exact ⟨rfl, rfl, rfl⟩
  | exited => exact ⟨rfl, rfl, rfl⟩
  | entry =>
    simp only [resume]
    split
    · exact ⟨rfl, rfl, rfl⟩
    · exact ⟨rfl, rfl, rfl⟩

theorem wait_syscallStop (entry : Bool) (regs : Regs) :
    wait (Report.syscallStop entry regs).status = some (.stopped (0x80 ||| SIGTRAP)) := by
  have status : (Report.syscallStop entry regs).status = 0x857f := rfl
  rw [status]
  exact wait_stopped (by decide) (by decide) (by decide)

theorem react_trapped (t : Tracer ε) (entry : Bool) (regs : Regs) (env : ε) :
    react t .loop (.syscallStop entry regs) env =
      handleTrapped t (.syscallStop entry regs) env := by
  simp only [react, wait_syscallStop, if_true]

theorem react_exec (t : Tracer ε) (env : ε) :
    react t .loop .execEvent env = ⟨[syscall], .loop, env⟩ := by
  have status : Report.execEvent.status = 0x4057f := rfl
  have stopped : wait 0x4057f = some (.stopped SIGTRAP) :=
    wait_stopped (by decide) (by decide) (by decide)
  have other : ¬SIGTRAP = 0x80 ||| SIGTRAP := by decide
  simp only [react, status, stopped, if_neg other]

theorem react_replaced (t : Tracer ε) (regs regs' : Regs) (result : U64) (env : ε) :
    react t (.replacing regs result) (.syscallStop false regs') env =
      ⟨[.setRegs { regs with origRax := result, rax := result }, syscall], .loop, env⟩ := by
  simp only [react, wait_syscallStop, proceed]

/-- The registers of the call that replaces another one. -/
def noop (regs : Regs) : Regs := { regs with origRax := SYS_gettid, rax := SYS_gettid }

/-- A hook is called once; one reaction leaves the worker in the loop, or two do around a
replaced call. -/
theorem entry_reacts (m : Machine ε) (removeVdso : ε → Option ε) (regs : Regs) (env : ε)
    (log : List TraceLoop.Event) :
    ∃ d, Answers m removeVdso (.loop, ⟨.entry, regs, env, log⟩) (.loop, d) ∧
      Same (resume m (TraceLoop.handleTrapped m ⟨.entry, regs, env, log⟩)) d := by
  have returns := TraceLoop.gettid_returns regs.args
  cases found : m.getHook regs.origRax with
  | none =>
    have once : answer m removeVdso .loop ⟨.entry, regs, env, log⟩ =
        (.loop, resume m ⟨.entry, regs, env, log⟩) := by
      simp only [answer, report, react_trapped, handleTrapped, tracer, found]
      rfl
    refine ⟨_, answers_once once, ?_⟩
    simp only [TraceLoop.handleTrapped, TraceLoop.getSyscallInfo, found]
    exact .refl _
  | some hook =>
    rcases called : hook regs.args env with ⟨result, env'⟩
    cases result with
    | passthrough =>
      have once : answer m removeVdso .loop ⟨.entry, regs, env, log⟩ =
          (.loop, resume m ⟨.entry, regs, env', log⟩) := by
        simp only [answer, report, react_trapped, handleTrapped, tracer, found, called]
        rfl
      refine ⟨_, answers_once once, ?_⟩
      simp only [TraceLoop.handleTrapped, TraceLoop.getSyscallInfo, found, called]
      exact same_resume m ⟨rfl, rfl, rfl⟩
    | handled v =>
      have first : answer m removeVdso .loop ⟨.entry, regs, env, log⟩ =
          (.replacing (noop regs) v, resume m ⟨.entry, noop regs, env', log⟩) := by
        simp only [answer, report, react_trapped, handleTrapped, tracer, found, called]
        rfl
      have stopped : (resume m ⟨.entry, noop regs, env', log⟩).phase = .exit := by
        simp only [resume]
        split
        · next exits => exact absurd exits returns
        · rfl
      have second : answer m removeVdso (.replacing (noop regs) v)
          (resume m ⟨.entry, noop regs, env', log⟩) =
            (.loop, resume m { resume m ⟨.entry, noop regs, env', log⟩ with
              regs := { noop regs with origRax := v, rax := v } }) := by
        simp only [answer, report, stopped, react_replaced]
        rfl
      refine ⟨_, (answers_once first).trans (answers_once second), ?_⟩
      simp only [TraceLoop.handleTrapped, TraceLoop.getSyscallInfo, found, called,
        TraceLoop.replaceSyscallWithResult]
      apply same_resume
      have same := same_resume m (Same.relog .entry (noop regs) env'
        (log ++ [.dispatched .entry ⟨regs.origRax, regs.args⟩]) log)
      exact ⟨same.phase, rfl, same.env⟩

/-- From one pass of the loop to the next, the worker goes from one wait in the loop to
another one. -/
theorem pass_reacts (m : Machine ε) (removeVdso : ε → Option ε) {c : Child ε}
    (goes : (TraceLoop.pass m c).2 = false) :
    ∃ d, Answers m removeVdso (.loop, resume m c) (.loop, d) ∧
      Same (resume m (TraceLoop.pass m c).1) d := by
  rw [TraceLoop.pass] at goes ⊢
  generalize resume m c = s at goes ⊢
  obtain ⟨phase, regs, env, log⟩ := s
  cases phase with
  | execEvent =>
    have once : answer m removeVdso .loop ⟨.execEvent, regs, env, log⟩ =
        (.loop, resume m ⟨.execEvent, regs, env, log⟩) := by
      simp only [answer, report, react_exec]
      rfl
    exact ⟨_, answers_once once, .refl _⟩
  | exit =>
    have once : answer m removeVdso .loop ⟨.exit, regs, env, log⟩ =
        (.loop, resume m ⟨.exit, regs, env, log⟩) := by
      simp only [answer, report, react_trapped, handleTrapped]
      rfl
    exact ⟨_, answers_once once, .refl _⟩
  | entry => exact entry_reacts m removeVdso regs env log
  | exited => cases goes

/-- The pass that returns is the one that sees the child exit. -/
theorem pass_ends (m : Machine ε) (removeVdso : ε → Option ε) {c : Child ε}
    (returns : (TraceLoop.pass m c).2 = true) :
    Answers m removeVdso (.loop, resume m c) (.ended, (TraceLoop.pass m c).1) := by
  rw [TraceLoop.pass] at returns ⊢
  generalize resume m c = s at returns ⊢
  obtain ⟨phase, regs, env, log⟩ := s
  cases phase with
  | exited =>
    have status : (Report.exited 0).status = 0 := rfl
    have exits : wait 0 = some (.exited 0) := rfl
    apply answers_once
    simp only [answer, report, react, status, exits, proceed]
    rfl
  | execEvent => cases returns
  | entry => cases returns
  | exit => cases returns

theorem same_performed (m : Machine ε) (requests : List Request) {c d : Child ε}
    (same : Same c d) :
    Same (requests.foldl (perform m) c) (requests.foldl (perform m) d) := by
  induction requests generalizing c d with
  | nil => exact same
  | cons request rest ih =>
    refine ih ?_
    cases request with
    | resume => exact same_resume m same
    | setRegs => exact ⟨same.phase, rfl, same.env⟩
    | getSyscallInfo => exact same
    | getRegs => exact same

theorem same_answer (m : Machine ε) (removeVdso : ε → Option ε) (place : Place) {c d : Child ε}
    (same : Same c d) :
    (answer m removeVdso place c).1 = (answer m removeVdso place d).1 ∧
      Same (answer m removeVdso place c).2 (answer m removeVdso place d).2 := by
  have reports : report c = report d := by rw [report, report, same.phase, same.regs]
  rw [answer, answer, reports, same.env]
  exact ⟨rfl, same_performed m _ ⟨same.phase, same.regs, rfl⟩⟩

/-- The worker does not depend on the log. -/
theorem same_answers {m : Machine ε} {removeVdso : ε → Option ε} {place : Place} {c d : Child ε}
    {last : Place × Child ε} (answers : Answers m removeVdso (place, c) last) (same : Same c d) :
    ∃ e, Answers m removeVdso (place, d) (last.1, e) ∧ Same last.2 e := by
  induction answers with
  | refl => exact ⟨d, .refl, same⟩
  | @tail before after _ once ih =>
    obtain ⟨e, answers, same⟩ := ih
    obtain ⟨places, children⟩ := same_answer m removeVdso before.1 same
    rw [once] at places children
    have next : answer m removeVdso before.1 e =
        (after.1, (answer m removeVdso before.1 e).2) := Prod.ext places.symm rfl
    exact ⟨_, answers.trans (answers_once next), children⟩

/-- While the loop runs, the worker waits in it for the same child. -/
theorem loop_reacts (m : Machine ε) (removeVdso : ε → Option ε) (n : Nat) {c : Child ε}
    (goes : (TraceLoop.loop m n c).2 = false) :
    ∃ d, Answers m removeVdso (.loop, resume m c) (.loop, d) ∧
      Same (resume m (TraceLoop.loop m n c).1) d := by
  induction n with
  | zero => exact ⟨_, .refl, .refl _⟩
  | succ n ih =>
    rw [TraceLoop.loop_succ] at goes ⊢
    cases returned : (TraceLoop.loop m n c).2 with
    | true => simp [returned] at goes
    | false =>
      simp only [returned, Bool.false_eq_true, if_false] at goes ⊢
      obtain ⟨d, before, sameBefore⟩ := ih returned
      obtain ⟨e, last, sameLast⟩ := pass_reacts m removeVdso goes
      obtain ⟨f, moved, sameMoved⟩ := same_answers last sameBefore
      exact ⟨f, before.trans moved, sameLast.trans sameMoved⟩

/-- Where the loop returns, the worker is done. -/
theorem loop_ends (m : Machine ε) (removeVdso : ε → Option ε) (n : Nat) {c : Child ε}
    (returns : (TraceLoop.loop m n c).2 = true) :
    ∃ d, Answers m removeVdso (.loop, resume m c) (.ended, d) ∧
      Same (TraceLoop.loop m n c).1 d := by
  induction n with
  | zero => cases returns
  | succ n ih =>
    rw [TraceLoop.loop_succ] at returns ⊢
    cases returned : (TraceLoop.loop m n c).2 with
    | true =>
      simp only [if_true]
      exact ih returned
    | false =>
      simp only [returned, Bool.false_eq_true, if_false] at returns ⊢
      obtain ⟨d, before, sameBefore⟩ := loop_reacts m removeVdso n returned
      have last := pass_ends m removeVdso returns
      obtain ⟨f, moved, sameMoved⟩ := same_answers last sameBefore
      exact ⟨f, before.trans moved, sameMoved⟩

end Quiet

end SignalStops
