import Redstone.MachineWords

/-!
# The tracing loop

`ptrace_worker` resumes the child from stop to stop and lets hooks replace its system
calls. The kernel is modelled as far as the loop relies on it: a resumed child stops at
the entry and at the exit of each call, a call that exits has no exit stop, the entry
runs what `orig_rax` says, and `rax` at the exit is what the child sees. Everything the
child, the kernel and the hooks share is one state of any type. The log records what
happens, for the statements only.
-/

namespace TraceLoop

open MachineWords

universe u
variable {ε : Type u}

abbrev Args := Vector U64 6

/-- For the literals that index arguments. -/
instance argsNeZero : @NeZero Nat Zero.ofOfNat0 6 := ⟨Nat.succ_ne_zero 5⟩

structure Call where
  nr : U64
  args : Args

inductive HookResult where
  | handled (result : U64)
  | passthrough
  deriving DecidableEq

/-- The child's program, the kernel's calls and the table behind `get_hook`, null where
no hook is registered. The program maps the result it sees to its next call. -/
structure Machine (ε : Type u) where
  program : U64 → ε → Call × ε
  kernel : Call → ε → U64 × ε
  getHook : U64 → Option (Args → ε → HookResult × ε)

def SIGTRAP : Nat := 5
def ENOSYS : Nat := 38
def SYS_exit : U64 := 60
def SYS_gettid : U64 := 186
def SYS_exit_group : U64 := 231

/-- Calls that end the child. -/
def Call.Exits (call : Call) : Prop := call.nr = SYS_exit ∨ call.nr = SYS_exit_group

instance (call : Call) : Decidable call.Exits :=
  inferInstanceAs (Decidable (call.nr = SYS_exit ∨ call.nr = SYS_exit_group))

/-! ## The traced child -/

/-- Where the child is stopped: at the exec event that ends the start-up, at the entry or
the exit of a call, or not at all any more. -/
inductive Phase where
  | execEvent
  | entry
  | exit
  | exited
  deriving DecidableEq

structure Regs where
  origRax : U64
  rax : U64
  args : Args

inductive Event where
  | called (call : Call)
  | dispatched (phase : Phase) (call : Call)
  | ran (call : Call)
  | saw (result : U64)

structure Child (ε : Type u) where
  phase : Phase
  regs : Regs
  env : ε
  log : List Event

/-- `PTRACE_SYSCALL` and the wait for the next stop. -/
def resume (m : Machine ε) (c : Child ε) : Child ε :=
  match c.phase with
  | .execEvent => { c with phase := .exit, regs := { c.regs with rax := 0 } }
  | .exit =>
    let (call, env) := m.program c.regs.rax c.env
    ⟨.entry, ⟨call.nr, failure 64 ENOSYS, call.args⟩, env,
      c.log ++ [.saw c.regs.rax, .called call]⟩
  | .entry =>
    let call : Call := ⟨c.regs.origRax, c.regs.args⟩
    if call.Exits then { c with phase := .exited, log := c.log ++ [.ran call] }
    else
      let (rval, env) := m.kernel call c.env
      ⟨.exit, { c.regs with rax := rval }, env, c.log ++ [.ran call]⟩
  | .exited => c

/-- `child::run_state`. -/
inductive RunState where
  | running
  | stopped (signal : Nat)
  | terminated (signal : Nat)
  | exited (status : Nat)

/-- What `waitpid` reports with `PTRACE_O_TRACESYSGOOD`. -/
def state (c : Child ε) : RunState :=
  match c.phase with
  | .execEvent => .stopped SIGTRAP
  | .entry => .stopped (0x80 ||| SIGTRAP)
  | .exit => .stopped (0x80 ||| SIGTRAP)
  | .exited => .exited 0

/-- `PTRACE_GET_SYSCALL_INFO`, by its `op`. -/
inductive SyscallInfo where
  | entry (nr : U64) (args : Args)
  | exit (rval : U64)
  | none

def getSyscallInfo (c : Child ε) : SyscallInfo :=
  match c.phase with
  | .entry => .entry c.regs.origRax c.regs.args
  | .exit => .exit c.regs.rax
  | _ => .none

/-! ## The tracer -/

def replaceSyscallWithResult (m : Machine ε) (c : Child ε) (result : U64) : Child ε :=
  let regs := { c.regs with origRax := SYS_gettid, rax := SYS_gettid }
  let c := resume m { c with regs }
  { c with regs := { regs with origRax := result, rax := result } }

def handleTrapped (m : Machine ε) (c : Child ε) : Child ε :=
  match getSyscallInfo c with
  | .entry nr args =>
    match m.getHook nr with
    | none => c
    | some hook =>
      let (result, env) := hook args c.env
      let c := { c with env, log := c.log ++ [.dispatched c.phase ⟨nr, args⟩] }
      match result with
      | .handled v => replaceSyscallWithResult m c v
      | .passthrough => c
  | _ => c

/-- One pass of the loop; the flag says that it returns. -/
def pass (m : Machine ε) (c : Child ε) : Child ε × Bool :=
  let c := resume m c
  match state c with
  | .running => (c, false)
  | .stopped signal => (if signal = 0x80 ||| SIGTRAP then handleTrapped m c else c, false)
  | .terminated _ => (c, true)
  | .exited _ => (c, true)

/-- The loop of `ptrace_worker`, cut off after `n` passes; the flag says that it returned. -/
def loop (m : Machine ε) : (n : Nat) → Child ε → Child ε × Bool
  | 0, c => (c, false)
  | n + 1, c =>
    let (c, shouldReturn) := pass m c
    if shouldReturn then (c, true) else loop m n c

/-- The child where `wait_until_execve` leaves it. -/
def execed (regs : Regs) (env : ε) : Child ε := ⟨.execEvent, regs, env, []⟩

/-! ## What each call should do -/

/-- Between two calls: the result the child is about to see. -/
structure Between (ε : Type u) where
  result : U64
  env : ε
  log : List Event

/-- Inside a call, its hook done: what the kernel is to run, and the result that replaces
the kernel's, if any. -/
structure Inside (ε : Type u) where
  run : Call
  replaced : Option U64
  env : ε
  log : List Event

/-- The child sees the result and makes its next call; its hook, if there is one, is
called once, at the entry, and decides. -/
def Between.enter (m : Machine ε) (b : Between ε) : Inside ε :=
  let (call, env) := m.program b.result b.env
  let log := b.log ++ [.saw b.result, .called call]
  match m.getHook call.nr with
  | none => ⟨call, none, env, log⟩
  | some hook =>
    let (result, env) := hook call.args env
    let log := log ++ [.dispatched .entry call]
    match result with
    | .passthrough => ⟨call, none, env, log⟩
    | .handled v => ⟨⟨SYS_gettid, call.args⟩, some v, env, log⟩

/-- The kernel runs one call and it returns. -/
def Inside.leave (m : Machine ε) (i : Inside ε) : Between ε :=
  let (rval, env) := m.kernel i.run i.env
  ⟨i.replaced.getD rval, env, i.log ++ [.ran i.run]⟩

/-- The state after `n` whole calls, none if the child exited before. -/
def calls (m : Machine ε) (env : ε) : Nat → Option (Between ε)
  | 0 => some ⟨0, env, []⟩
  | n + 1 => (calls m env n).bind fun b =>
    if (b.enter m).run.Exits then none else some ((b.enter m).leave m)

/-! ## The loop stays in phase -/

/-- The child is stopped at an exit, about to see the result. -/
structure AtExit (c : Child ε) (b : Between ε) : Prop where
  phase : c.phase = .exit
  rax : c.regs.rax = b.result
  env : c.env = b.env
  log : c.log = b.log

/-- The child is stopped at the entry of a call that nothing replaced. -/
structure AtEntry (c : Child ε) (i : Inside ε) : Prop where
  phase : c.phase = .entry
  call : (⟨c.regs.origRax, c.regs.args⟩ : Call) = i.run
  kept : i.replaced = none
  env : c.env = i.env
  log : c.log = i.log

/-- The child exited in the call. -/
structure Ended (c : Child ε) (i : Inside ε) : Prop where
  phase : c.phase = .exited
  exits : i.run.Exits
  log : c.log = i.log ++ [.ran i.run]

theorem gettid_returns (args : Args) : ¬(⟨SYS_gettid, args⟩ : Call).Exits := by
  rintro (exit | group)
  · exact absurd exit (by decide : ¬SYS_gettid = SYS_exit)
  · exact absurd group (by decide : ¬SYS_gettid = SYS_exit_group)

/-- The first pass takes the child to the exit of `execve`. -/
theorem pass_execed (m : Machine ε) (regs : Regs) (env : ε) :
    (pass m (execed regs env)).2 = false ∧
      AtExit (pass m (execed regs env)).1 ⟨0, env, []⟩ :=
  ⟨rfl, rfl, rfl, rfl, rfl⟩

/-- From the entry of a call, the next pass runs it and dispatches nothing. -/
theorem pass_atEntry {m : Machine ε} {c : Child ε} {i : Inside ε} (entered : AtEntry c i) :
    (i.run.Exits → (pass m c).2 = true ∧ Ended (pass m c).1 i) ∧
      (¬i.run.Exits → (pass m c).2 = false ∧ AtExit (pass m c).1 (i.leave m)) := by
  obtain ⟨phase, call, kept, env, log⟩ := entered
  constructor
  · intro exits
    have resumed : resume m c = { c with phase := .exited, log := c.log ++ [.ran i.run] } := by
      simp only [resume, phase, call, if_pos exits]
    rw [pass, resumed]
    exact ⟨rfl, rfl, exits, by rw [← log]; rfl⟩
  · intro returns
    have resumed : resume m c = ⟨.exit, { c.regs with rax := (m.kernel i.run c.env).1 },
        (m.kernel i.run c.env).2, c.log ++ [.ran i.run]⟩ := by
      simp only [resume, phase, call, if_neg returns]
    rw [pass, resumed, env, log]
    refine ⟨rfl, rfl, ?_, rfl, rfl⟩
    rw [Inside.leave, kept]
    rfl

/-- From an exit, the next pass takes the child to the entry of its next call and calls
the hook; a handled call is over after that pass. -/
theorem pass_atExit {m : Machine ε} {c : Child ε} {b : Between ε} (left : AtExit c b) :
    (pass m c).2 = false ∧
      (AtEntry (pass m c).1 (b.enter m) ∨
        ¬(b.enter m).run.Exits ∧ AtExit (pass m c).1 ((b.enter m).leave m)) := by
  obtain ⟨phase, rax, env, log⟩ := left
  rcases next : m.program b.result b.env with ⟨call, env'⟩
  have resumed : resume m c = ⟨.entry, ⟨call.nr, failure 64 ENOSYS, call.args⟩, env',
      b.log ++ [.saw b.result, .called call]⟩ := by
    simp only [resume, phase, rax, env, log, next]
  have passed : pass m c = (handleTrapped m (resume m c), false) := by
    rw [pass, resumed]
    rfl
  rw [passed, resumed]
  refine ⟨rfl, ?_⟩
  cases found : m.getHook call.nr with
  | none =>
    left
    simp only [handleTrapped, getSyscallInfo, found, Between.enter, next]
    exact ⟨rfl, rfl, rfl, rfl, rfl⟩
  | some hook =>
    rcases answer : hook call.args env' with ⟨result, env''⟩
    cases result with
    | passthrough =>
      left
      simp only [handleTrapped, getSyscallInfo, found, Between.enter, next, answer]
      exact ⟨rfl, rfl, rfl, rfl, rfl⟩
    | handled v =>
      right
      have returns := gettid_returns call.args
      simp only [handleTrapped, getSyscallInfo, found, Between.enter, next, answer,
        replaceSyscallWithResult, resume, if_neg returns]
      exact ⟨returns, rfl, rfl, rfl, rfl⟩

/-- Where the loop is after the exec event and `n` more passes: `t` whole calls are over,
each of which took one pass or two. -/
inductive InPhase (m : Machine ε) (env : ε) (n : Nat) : Child ε × Bool → Prop where
  | between {t : Nat} {b : Between ε} {c : Child ε} (whole : calls m env t = some b)
      (left : AtExit c b) (atMost : t ≤ n) (atLeast : n ≤ 2 * t) : InPhase m env n (c, false)
  | inside {t : Nat} {b : Between ε} {c : Child ε} (whole : calls m env t = some b)
      (entered : AtEntry c (b.enter m)) (atMost : t < n) (atLeast : n ≤ 2 * t + 1) :
      InPhase m env n (c, false)
  | ended {t : Nat} {b : Between ε} {c : Child ε} (whole : calls m env t = some b)
      (last : Ended c (b.enter m)) : InPhase m env n (c, true)

theorem calls_succ {m : Machine ε} {env : ε} {t : Nat} {b : Between ε}
    (whole : calls m env t = some b) (returns : ¬(b.enter m).run.Exits) :
    calls m env (t + 1) = some ((b.enter m).leave m) := by
  rw [calls, whole, Option.bind_some, if_neg returns]

theorem loop_succ (m : Machine ε) (n : Nat) (c : Child ε) :
    loop m (n + 1) c =
      if (loop m n c).2 then ((loop m n c).1, true) else pass m (loop m n c).1 := by
  induction n generalizing c with
  | zero =>
    rcases passed : pass m c with ⟨after, returned⟩
    cases returned <;> simp [loop, passed]
  | succ n ih =>
    rcases passed : pass m c with ⟨after, returned⟩
    cases returned with
    | true => simp [loop, passed]
    | false =>
      have first : ∀ k, loop m (k + 1) c = loop m k after := by
        intro k
        simp [loop, passed]
      rw [first (n + 1), first n]
      exact ih after

/-- One more pass keeps the loop in phase. -/
theorem inPhase_pass {m : Machine ε} {env : ε} {n : Nat} {c : Child ε}
    (phase : InPhase m env n (c, false)) : InPhase m env (n + 1) (pass m c) := by
  change InPhase m env (n + 1) ((pass m c).1, (pass m c).2)
  cases phase with
  | between whole left atMost atLeast =>
    obtain ⟨returned, entered | ⟨returns, left'⟩⟩ := pass_atExit left
    · rw [returned]
      exact .inside whole entered (by omega) (by omega)
    · rw [returned]
      exact .between (calls_succ whole returns) left' (by omega) (by omega)
  | @inside t b c whole entered atMost atLeast =>
    obtain ⟨exit, leave⟩ := pass_atEntry (m := m) entered
    by_cases exits : (b.enter m).run.Exits
    · obtain ⟨returned, last⟩ := exit exits
      rw [returned]
      exact .ended whole last
    · obtain ⟨returned, left⟩ := leave exits
      rw [returned]
      exact .between (calls_succ whole exits) left (by omega) (by omega)

/-- However many passes the loop made, the child is between two calls, inside a call that
was passed through, or exited in its last call, and the log is that of whole calls. -/
theorem loop_in_phase (m : Machine ε) (regs : Regs) (env : ε) (n : Nat) :
    InPhase m env n (loop m (n + 1) (execed regs env)) := by
  induction n with
  | zero =>
    obtain ⟨returned, left⟩ := pass_execed m regs env
    have first : loop m 1 (execed regs env) = ((pass m (execed regs env)).1, false) := by
      rw [loop_succ, ← returned]
      rfl
    rw [first]
    exact .between (t := 0) rfl left (Nat.le_refl 0) (Nat.le_refl 0)
  | succ n ih =>
    rw [loop_succ]
    rcases passes : loop m (n + 1) (execed regs env) with ⟨c, returned⟩
    rw [passes] at ih
    cases returned with
    | true =>
      cases ih with
      | ended whole last => exact .ended whole last
    | false => exact inPhase_pass ih

end TraceLoop
