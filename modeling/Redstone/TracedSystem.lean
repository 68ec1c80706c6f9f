import Redstone.HookTable
import Redstone.OverlappingHooks
import Redstone.VirtualClock

/-!
# The traced programs together

Each replica's program has a tracer of its own. At the entry of a call the tracer looks
the hook up and runs it, and the kernel then runs the call, or `gettid` in its place. The
steps of all tracers and programs come in any order, and hooks of several tracers run at
the same time. Seen from the programs this is one operating system, in which each call takes
effect at one moment, if no two of them make datagram sockets at the same time.
-/

namespace TracedSystem

open MachineWords SocketAddr Network FdTable ParseAddr HookTable
open SocketSeeds (ReplicaId)
open TraceLoop (Args HookResult SYS_exit SYS_exit_group SYS_gettid)
open ChildMemory (Memory)
open Syscalls HookOutcomes HookEffects StepRuns Function
open RunningHooks OverlappingHooks

universe u
variable {κ : Type u}

/-! ## What a hook passes through -/

theorem failed_ne (errno : Nat) : failed errno ≠ .passthrough := nofun

theorem handled_ne (v : U64) : HookResult.handled v ≠ .passthrough := nofun

theorem handledInt_ne (v : CInt) : handledInt v ≠ .passthrough := handled_ne _

/-- A hook that takes a descriptor passes the call through, changing nothing, exactly if the
number is not a simulated one. -/
def PassesReal (sim : Sim) (args : Args) (result : HookResult) (after : Sim) : Prop :=
  if isSimulated ((args.get 0).setWidth 32) then result ≠ .passthrough
  else result = .passthrough ∧ after = sim

theorem PassesReal.of {sim : Sim} {args : Args} {result : HookResult} {after : Sim}
    (outside : isSimulated ((args.get 0).setWidth 32) = false →
      result = .passthrough ∧ after = sim)
    (inside : ¬isSimulated ((args.get 0).setWidth 32) = false → result ≠ .passthrough) :
    PassesReal sim args result after := by
  cases real : isSimulated ((args.get 0).setWidth 32) with
  | false =>
    rw [PassesReal, if_neg (Bool.eq_false_iff.mp real)]
    exact outside real
  | true =>
    rw [PassesReal, if_pos real]
    refine inside ?_
    rw [real]
    decide

theorem read_passes (sim : Sim) (r : ReplicaId) (args : Args) :
    PassesReal sim args (sysRead sim r args).1 (sysRead sim r args).2 := by
  refine .of (fun real => ?_) fun real => ?_
  · simp only [sysRead, if_pos real, and_self]
  · simp only [sysRead, if_neg real]
    split
    · exact failed_ne _
    · exact failed_ne _

theorem write_passes (sim : Sim) (r : ReplicaId) (args : Args) :
    PassesReal sim args (sysWrite sim r args).1 (sysWrite sim r args).2 := by
  refine .of (fun real => ?_) fun real => ?_
  · simp only [sysWrite, if_pos real, and_self]
  · simp only [sysWrite, if_neg real]
    split
    · exact failed_ne _
    · exact failed_ne _

theorem close_passes (sim : Sim) (r : ReplicaId) (args : Args) :
    PassesReal sim args (sysClose sim r args).1 (sysClose sim r args).2 := by
  refine .of (fun real => ?_) fun real => ?_
  · simp only [sysClose, if_pos real, and_self]
  · simp only [sysClose, if_neg real]
    split
    · exact handledInt_ne _
    · exact handledInt_ne _

theorem bind_passes (around : Surroundings) (sim : Sim) (r : ReplicaId) (args : Args) :
    PassesReal sim args (sysBind around sim r args).1 (sysBind around sim r args).2 := by
  refine .of (fun real => ?_) fun real => ?_
  · simp only [sysBind, if_pos real, and_self]
  · simp only [sysBind, if_neg real]
    split
    · exact failed_ne _
    · split
      · exact failed_ne _
      · split
        · exact failed_ne _
        · split
          · exact failed_ne _
          · exact handled_ne _

theorem connect_passes (around : Surroundings) (sim : Sim) (r : ReplicaId) (args : Args) :
    PassesReal sim args (sysConnect around sim r args).1 (sysConnect around sim r args).2 := by
  refine .of (fun real => ?_) fun real => ?_
  · simp only [sysConnect, if_pos real, and_self]
  · cases parsed : parseAddr (sim.readMemory r) around.stack (args.get 1) (args.get 2).toNat with
    | error e =>
      simp only [sysConnect, if_neg real, parsed]
      exact failed_ne e
    | ok addr =>
      have ended := sysConnect_ends real parsed
      generalize (sysConnect around sim r args).1 = result at ended ⊢
      generalize (sysConnect around sim r args).2 = after at ended
      cases ended with
      | refused errno => exact failed_ne errno
      | called => exact handledInt_ne _

theorem sendTo_handled {around : Surroundings} {sim after : Sim} {r : ReplicaId}
    {buffer bytes : U64} {dst : Addr} {result : HookResult}
    (returned : sendTo around sim r buffer bytes dst = some (result, after)) :
    result ≠ .passthrough := by
  simp only [sendTo] at returned
  split at returned
  · obtain ⟨rfl, -⟩ := Prod.mk.inj (Option.some.inj returned)
    exact handled_ne _
  · split at returned
    · cases returned
    · split at returned
      · cases returned
      · split at returned
        · cases returned
        · obtain ⟨rfl, -⟩ := Prod.mk.inj (Option.some.inj returned)
          exact handled_ne _

theorem sendto_passes {around : Surroundings} {sim after : Sim} {r : ReplicaId} {args : Args}
    {result : HookResult} (returned : sysSendto around sim r args = some (result, after)) :
    PassesReal sim args result after := by
  refine .of (fun real => ?_) fun real => ?_
  · simp only [sysSendto, if_pos real] at returned
    obtain ⟨rfl, rfl⟩ := Prod.mk.inj (Option.some.inj returned)
    exact ⟨rfl, rfl⟩
  · simp only [sysSendto, if_neg real] at returned
    split at returned
    · rw [← (Prod.mk.inj (Option.some.inj returned)).1]
      exact failed_ne _
    · split at returned
      · rw [← (Prod.mk.inj (Option.some.inj returned)).1]
        exact failed_ne _
      · split at returned
        · rw [← (Prod.mk.inj (Option.some.inj returned)).1]
          exact failed_ne _
        · exact sendTo_handled returned

theorem recvfromFailed_passes {sim after : Sim} {r : ReplicaId} {args : Args}
    {result : HookResult} (failing : sysRecvfrom sim r args = (.error result, after)) :
    PassesReal sim args result after := by
  refine .of (fun real => ?_) fun real => ?_
  · simp only [sysRecvfrom, if_pos real] at failing
    obtain ⟨same, rfl⟩ := Prod.mk.inj failing
    exact ⟨(Except.error.inj same).symm, rfl⟩
  · simp only [sysRecvfrom, if_neg real] at failing
    split at failing
    · rw [← Except.error.inj (Prod.mk.inj failing).1]
      exact failed_ne _
    · split at failing
      · rw [← Except.error.inj (Prod.mk.inj failing).1]
        exact failed_ne _
      · cases failing

theorem receives_passes {now : I64} {sim after : Sim} {r : ReplicaId} {args : Args}
    {p : DatagramPipe.Packet} {result : HookResult}
    (received : Receives now sim r args p result after) : PassesReal sim args result after := by
  obtain ⟨s, sock, found, waits, -, -, done⟩ := received
  refine .of (fun real => ?_) fun real => ?_
  · simp only [sysRecvfrom, if_pos real] at waits
    cases waits
  · rw [(Prod.mk.inj done).1]
    exact handled_ne _

theorem socket_handled {sim after : Sim} {r : ReplicaId} {args : Args} {result : HookResult}
    (ran : sysSocket sim r args = (result, after)) : result ≠ .passthrough := by
  simp only [sysSocket] at ran
  split at ran
  · exact (Prod.mk.inj ran).1 ▸ failed_ne EINVAL
  · split at ran
    · exact (Prod.mk.inj ran).1 ▸ failed_ne EINVAL
    · split at ran
      · exact (Prod.mk.inj ran).1 ▸ failed_ne EMFILE
      · split at ran <;> exact (Prod.mk.inj ran).1 ▸ handledInt_ne _

/-! ## The tracers -/

def hookOf : Syscalls.Call → Hook
  | .read => .sysRead
  | .write => .sysWrite
  | .close => .sysClose
  | .socket => .sysSocket
  | .sendto => .sysSendto
  | .connect => .sysConnect
  | .bind => .sysBind

/-- A hook that is in the table returns to a call of `r` when it has done `e`. -/
inductive HookEvent (clock : ReplicaId → VirtualClock.Scale) (sim : Sim) (r : ReplicaId)
    (args : Args) : Hook → HookResult → SysEvent → Prop where
  | calls (call : Syscalls.Call) (result : HookResult) :
      HookEvent clock sim r args (hookOf call) result (.call r call args result)
  | receives (p : DatagramPipe.Packet) (result : HookResult) :
      HookEvent clock sim r args .sysRecvfrom result (.recvfrom r args p result)
  | fails (result : HookResult) :
      HookEvent clock sim r args .sysRecvfrom result (.recvfromFailed r args result)
  | gettime {now : Int} {result : HookResult} {tm : VirtualClock.Timespec} {memory : Memory}
      (called : VirtualClock.sysClockGettime (clock r) now (sim.memories r) args =
        (result, tm, memory)) :
      HookEvent clock sim r args .sysClockGettime result (.compute r memory)
  | nanosleep {result : HookResult} {slept : Option (VirtualClock.Timespec × ℚ)}
      (called : VirtualClock.sysClockNanosleep (clock r) (sim.memories r) args =
        (result, slept)) :
      HookEvent clock sim r args .sysClockNanosleep result (.compute r (sim.memories r))
  | passes :
      HookEvent clock sim r args .explicitPassthrough .passthrough (.compute r (sim.memories r))

/-- What a call may do to the kernel and to the memory of the caller, and its result. -/
abbrev Kernel (κ : Type u) :=
  ReplicaId → TraceLoop.Call → κ → Memory → U64 → κ → Memory → Prop

/-- Where a program is. `passing` and `replacing` are stops at the entry of a call after its
hook is done: the kernel is to run the call, or `gettid` and the tracer has its result. -/
inductive Place where
  | running
  | entry (call : TraceLoop.Call)
  | passing (call : TraceLoop.Call)
  | replacing (args : Args) (result : U64)
  | exited

structure Traced (κ : Type u) where
  hooks : Running
  host : κ
  place : ReplicaId → Place

inductive Event where
  | calls (r : ReplicaId) (call : TraceLoop.Call)
  | inside (e : RunEvent)
  | dispatches (r : ReplicaId)
  | answers (r : ReplicaId)
  | runs (r : ReplicaId) (call : TraceLoop.Call) (result : U64)
  | exits (r : ReplicaId) (call : TraceLoop.Call)
  | replaces (r : ReplicaId) (result : U64)

/-- What the programs take part in: calls, their results, and the end. -/
inductive Seen where
  | call (r : ReplicaId) (call : TraceLoop.Call)
  | result (r : ReplicaId) (v : U64)
  | exit (r : ReplicaId)

def Event.seen : Event → Option Seen
  | calls r call => some (.call r call)
  | inside _ => none
  | dispatches _ => none
  | answers _ => none
  | runs r _ v => some (.result r v)
  | exits r _ => some (.exit r)
  | replaces r v => some (.result r v)

def setMemory (sim : Sim) (r : ReplicaId) (memory : Memory) : Sim :=
  { sim with memories := update sim.memories r memory }

/-- What happens inside of hooks before they do something and after it. A hook that begins is
that of the call at whose entry the program is. -/
def Inside (table : List (Option Hook)) (place : ReplicaId → Place) : RunEvent → Prop
  | .finds r seeker args => ∃ call, place r = .entry call ∧ args = call.args ∧
      getHook table call.nr = some (hookOf seeker.call)
  | .seeds r args => ∃ call, place r = .entry call ∧ args = call.args ∧
      getHook table call.nr = some .sysSocket
  | .draws _ => True
  | .returns _ => True
  | .commits _ => False

section Systems
variable (kernel : Kernel κ) (clock : ReplicaId → VirtualClock.Scale)

/-- One step of a program, of its tracer or of the kernel on its behalf. A program does not
run and no call is made in its place while a hook of its tracer has not returned. -/
inductive TracedStep (table : List (Option Hook)) (s : Traced κ) : Event → Traced κ → Prop where
  | calls {r : ReplicaId} (call : TraceLoop.Call) (memory : Memory) {hooks : Running}
      (here : s.place r = .running)
      (wrote : RunStep s.hooks (.commits (.compute r memory)) hooks) :
      TracedStep table s (.calls r call)
        { s with hooks, place := update s.place r (.entry call) }
  | unhooked {r : ReplicaId} {call : TraceLoop.Call} (here : s.place r = .entry call)
      (null : getHook table call.nr = none) :
      TracedStep table s (.dispatches r) { s with place := update s.place r (.passing call) }
  | inside {e : RunEvent} {hooks : Running} (own : Inside table s.place e)
      (step : RunStep s.hooks e hooks) :
      TracedStep table s (.inside e) { s with hooks }
  | passed {r : ReplicaId} {call : TraceLoop.Call} {hook : Hook} {e : SysEvent}
      {hooks : Running} (here : s.place r = .entry call)
      (found : getHook table call.nr = some hook)
      (ran : HookEvent clock s.hooks.sim r call.args hook .passthrough e)
      (step : RunStep s.hooks (.commits e) hooks) :
      TracedStep table s (.dispatches r)
        { s with hooks, place := update s.place r (.passing call) }
  | answered {r : ReplicaId} {call : TraceLoop.Call} {hook : Hook} {v : U64} {e : SysEvent}
      {hooks : Running} (here : s.place r = .entry call)
      (found : getHook table call.nr = some hook)
      (ran : HookEvent clock s.hooks.sim r call.args hook (.handled v) e)
      (step : RunStep s.hooks (.commits e) hooks) :
      TracedStep table s (.answers r)
        { s with hooks, place := update s.place r (.replacing call.args v) }
  | runs {r : ReplicaId} {call : TraceLoop.Call} {v : U64} {host : κ} {memory : Memory}
      {hooks : Running} (here : s.place r = .passing call) (returns : ¬call.Exits)
      (ran : kernel r call s.host (s.hooks.sim.memories r) v host memory)
      (wrote : RunStep s.hooks (.commits (.compute r memory)) hooks) :
      TracedStep table s (.runs r call v) ⟨hooks, host, update s.place r .running⟩
  | exits {r : ReplicaId} {call : TraceLoop.Call} (here : s.place r = .passing call)
      (exits : call.Exits) :
      TracedStep table s (.exits r call) { s with place := update s.place r .exited }
  | replaced {r : ReplicaId} {args : Args} {v rval : U64} {host : κ} {memory : Memory}
      {hooks : Running} (here : s.place r = .replacing args v)
      (ran : kernel r ⟨SYS_gettid, args⟩ s.host (s.hooks.sim.memories r) rval host memory)
      (wrote : RunStep s.hooks (.commits (.compute r memory)) hooks) :
      TracedStep table s (.replaces r v) ⟨hooks, host, update s.place r .running⟩

/-- The making of a datagram socket does not overlap that of another one. -/
def TracedApart (table : List (Option Hook)) (s : Traced κ) (e : Event) (s' : Traced κ) : Prop :=
  TracedStep kernel clock table s e s' ∧ Apart s'.hooks

/-! ## The operating system that the programs see -/

def alwaysSimulated : List U64 := [SYS_socket, SYS_clock_gettime, SYS_clock_nanosleep]

def onDescriptors : List U64 :=
  [SYS_write, SYS_read, SYS_close, SYS_sendto, SYS_recvfrom, SYS_connect, SYS_bind]

/-- The calls that the simulator is there to answer. -/
def Simulated (call : TraceLoop.Call) : Prop :=
  call.nr ∈ alwaysSimulated ∨
    call.nr ∈ onDescriptors ∧ isSimulated ((call.args.get 0).setWidth 32) = true

inductive OsPlace where
  | running
  | pending (call : TraceLoop.Call)
  | done (result : U64)
  | exited

structure Os (κ : Type u) where
  sim : Sim
  host : κ
  place : ReplicaId → OsPlace

inductive OsEvent where
  | calls (r : ReplicaId) (call : TraceLoop.Call)
  | serves (r : ReplicaId)
  | runs (r : ReplicaId)
  | returns (r : ReplicaId) (result : U64)
  | exits (r : ReplicaId)
  | frees

def OsEvent.seen : OsEvent → Option Seen
  | calls r call => some (.call r call)
  | serves _ => none
  | runs _ => none
  | returns r v => some (.result r v)
  | exits r => some (.exit r)
  | frees => none

/-- Between a call and its return it takes effect at one moment: in the simulation if it is
one of the calls that are simulated, and in the kernel if it is not. A socket that was closed
may go away later. -/
inductive OsStep (s : Os κ) : OsEvent → Os κ → Prop where
  | calls {r : ReplicaId} (call : TraceLoop.Call) (memory : Memory)
      (here : s.place r = .running) :
      OsStep s (.calls r call) { s with
        sim := setMemory s.sim r memory, place := update s.place r (.pending call) }
  | serves {r : ReplicaId} {call : TraceLoop.Call} {hook : Hook} {v : U64} {e : SysEvent}
      {after : Sim} (here : s.place r = .pending call) (simulated : Simulated call)
      (hooked : hookMap.lookup call.nr = some hook)
      (ran : HookEvent clock s.sim r call.args hook (.handled v) e)
      (taken : LateStep s.sim (some e) after) :
      OsStep s (.serves r) { s with sim := after, place := update s.place r (.done v) }
  | runs {r : ReplicaId} {call : TraceLoop.Call} {v : U64} {host : κ} {memory : Memory}
      (here : s.place r = .pending call) (real : ¬Simulated call) (returns : ¬call.Exits)
      (ran : kernel r call s.host (s.sim.memories r) v host memory) :
      OsStep s (.runs r) ⟨setMemory s.sim r memory, host, update s.place r (.done v)⟩
  | returns {r : ReplicaId} {v : U64} (here : s.place r = .done v) :
      OsStep s (.returns r v) { s with place := update s.place r .running }
  | exits {r : ReplicaId} {call : TraceLoop.Call} (here : s.place r = .pending call)
      (real : ¬Simulated call) (exits : call.Exits) :
      OsStep s (.exits r) { s with place := update s.place r .exited }
  | frees {after : Sim} (gone : LateStep s.sim none after) :
      OsStep s .frees { s with sim := after }

end Systems

/-! ## Hooks and calls -/

/-- A hook answers always, never, or if the descriptor is simulated. -/
def answers (simulated : Bool) : Hook → Bool
  | .explicitPassthrough => false
  | .sysSocket => true
  | .sysClockGettime => true
  | .sysClockNanosleep => true
  | _ => simulated

theorem mem_of_lookup {map : List (U64 × Hook)} {nr : U64} {hook : Hook}
    (found : map.lookup nr = some hook) : (nr, hook) ∈ map := by
  induction map with
  | nil => cases found
  | cons entry rest ih =>
    obtain ⟨sys, h⟩ := entry
    by_cases here : nr = sys
    · subst here
      rw [List.lookup_cons_self] at found
      rw [Option.some.inj found]
      exact List.mem_cons_self
    · rw [List.lookup_cons, beq_false_of_ne here] at found
      exact List.mem_cons_of_mem _ (ih found)

theorem answers_entries (b : Bool) :
    hookMap.all (fun entry => (alwaysSimulated.contains entry.1 ||
      onDescriptors.contains entry.1 && b) == answers b entry.2) = true := by
  cases b <;> decide +kernel

theorem simulated_iff {call : TraceLoop.Call} {hook : Hook}
    (hooked : hookMap.lookup call.nr = some hook) :
    Simulated call ↔ answers (isSimulated ((call.args.get 0).setWidth 32)) hook = true := by
  have entries := answers_entries (isSimulated ((call.args.get 0).setWidth 32))
  have entry := List.all_eq_true.mp entries _ (mem_of_lookup hooked)
  rw [← beq_iff_eq.mp entry, Simulated, Bool.or_eq_true, Bool.and_eq_true,
    List.contains_iff_mem, List.contains_iff_mem]

/-- A call without a hook is not simulated. -/
theorem unhooked_real {call : TraceLoop.Call} (null : hookMap.lookup call.nr = none) :
    ¬Simulated call := by
  have hooked : (alwaysSimulated ++ onDescriptors).all
      (fun nr => (hookMap.lookup nr).isSome) = true := by decide +kernel
  intro simulated
  have member : call.nr ∈ alwaysSimulated ++ onDescriptors := by
    rcases simulated with always | ⟨descriptor, -⟩
    · exact List.mem_append_left _ always
    · exact List.mem_append_right _ descriptor
  have found := List.all_eq_true.mp hooked _ member
  rw [null] at found
  cases found

theorem setMemory_self (sim : Sim) (r : ReplicaId) : setMemory sim r (sim.memories r) = sim := by
  rw [setMemory, update_eq_self]

theorem hook_passes {clock : ReplicaId → VirtualClock.Scale} {sim after : Sim} {r : ReplicaId}
    {args : Args} {hook : Hook} {result : HookResult} {e : SysEvent}
    (ran : HookEvent clock sim r args hook result e) (taken : SysStep sim e after) :
    if answers (isSimulated ((args.get 0).setWidth 32)) hook then result ≠ .passthrough
    else result = .passthrough ∧ after = sim := by
  cases ran with
  | calls call =>
    obtain ⟨around, ran⟩ := taken
    cases call with
    | read =>
      obtain ⟨rfl, rfl⟩ := Prod.mk.inj (Option.some.inj ran)
      exact read_passes sim r args
    | write =>
      obtain ⟨rfl, rfl⟩ := Prod.mk.inj (Option.some.inj ran)
      exact write_passes sim r args
    | close =>
      obtain ⟨rfl, rfl⟩ := Prod.mk.inj (Option.some.inj ran)
      exact close_passes sim r args
    | socket => exact socket_handled (Option.some.inj ran)
    | sendto => exact sendto_passes ran
    | connect =>
      obtain ⟨rfl, rfl⟩ := Prod.mk.inj (Option.some.inj ran)
      exact connect_passes around sim r args
    | bind =>
      obtain ⟨rfl, rfl⟩ := Prod.mk.inj (Option.some.inj ran)
      exact bind_passes around sim r args
  | receives p =>
    obtain ⟨now, received⟩ := taken
    exact receives_passes received
  | fails => exact recvfromFailed_passes taken
  | gettime called =>
    rw [VirtualClock.sysClockGettime_eq] at called
    exact (Prod.mk.inj called).1 ▸ nofun
  | nanosleep called =>
    rw [VirtualClock.sysClockNanosleep_eq _ rfl] at called
    exact (Prod.mk.inj called).1 ▸ nofun
  | passes => exact ⟨rfl, Eq.trans taken (setMemory_self sim r)⟩

/-- A hook passes a call through exactly if it is not simulated, and then does nothing. -/
theorem dispatch_passes {clock : ReplicaId → VirtualClock.Scale} {sim after : Sim}
    {r : ReplicaId} {call : TraceLoop.Call} {hook : Hook} {result : HookResult} {e : SysEvent}
    (hooked : hookMap.lookup call.nr = some hook)
    (ran : HookEvent clock sim r call.args hook result e) (taken : SysStep sim e after) :
    Simulated call ∧ result ≠ .passthrough ∨
      ¬Simulated call ∧ result = .passthrough ∧ after = sim := by
  have passes := hook_passes ran taken
  by_cases simulated : Simulated call
  · rw [if_pos ((simulated_iff hooked).mp simulated)] at passes
    exact Or.inl ⟨simulated, passes⟩
  · rw [if_neg (mt (simulated_iff hooked).mpr simulated)] at passes
    exact Or.inr ⟨simulated, passes⟩

/-- A hook reads the memory of the caller only. -/
theorem HookEvent.of_memories {clock : ReplicaId → VirtualClock.Scale} {sim sim' : Sim}
    {r : ReplicaId} {args : Args} {hook : Hook} {result : HookResult} {e : SysEvent}
    (same : sim'.memories = sim.memories) (ran : HookEvent clock sim r args hook result e) :
    HookEvent clock sim' r args hook result e := by
  cases ran with
  | calls call => exact .calls call result
  | receives p => exact .receives p result
  | fails => exact .fails result
  | gettime called => exact .gettime (same ▸ called)
  | nanosleep called =>
    rw [← same] at called ⊢
    exact .nanosleep called
  | passes =>
    rw [← same]
    exact .passes

/-! ## The tracers make that operating system -/

section Refinement
variable {kernel : Kernel κ} {clock : ReplicaId → VirtualClock.Scale}
variable {table : List (Option Hook)}

/-- A call takes effect when its hook answers it, or else when the kernel runs it. -/
inductive SamePlace : Place → OsPlace → Prop where
  | running : SamePlace .running .running
  | entry (call : TraceLoop.Call) : SamePlace (.entry call) (.pending call)
  | passing {call : TraceLoop.Call} (real : ¬Simulated call) :
      SamePlace (.passing call) (.pending call)
  | replacing (args : Args) (v : U64) : SamePlace (.replacing args v) (.done v)
  | exited : SamePlace .exited .exited

structure Refines (s : Traced κ) (t : Os κ) : Prop where
  ahead : Ahead s.hooks t.sim
  host : t.host = s.host
  place : ∀ r, SamePlace (s.place r) (t.place r)

theorem samePlace_update {place : ReplicaId → Place} {place' : ReplicaId → OsPlace}
    (same : ∀ q, SamePlace (place q) (place' q)) (r : ReplicaId) {p : Place} {p' : OsPlace}
    (here : SamePlace p p') : ∀ q, SamePlace (update place r p q) (update place' r p' q) := by
  intro q
  by_cases own : q = r
  · rw [own, update_self, update_self]
    exact here
  · rw [update_of_ne own, update_of_ne own]
    exact same q

theorem SamePlace.of_running {p' : OsPlace} (same : SamePlace .running p') : p' = .running := by
  cases same
  rfl

theorem SamePlace.of_entry {call : TraceLoop.Call} {p' : OsPlace}
    (same : SamePlace (.entry call) p') : p' = .pending call := by
  cases same
  rfl

theorem SamePlace.of_passing {call : TraceLoop.Call} {p' : OsPlace}
    (same : SamePlace (.passing call) p') : p' = .pending call ∧ ¬Simulated call := by
  cases same with
  | passing real => exact ⟨rfl, real⟩

theorem SamePlace.of_replacing {args : Args} {v : U64} {p' : OsPlace}
    (same : SamePlace (.replacing args v) p') : p' = .done v := by
  cases same
  rfl

/-! ### The simulation -/

section Commits
variable {h h' : Running} {sim : Sim} {c : SysEvent}

/-- What a step of the hooks that takes effect is for hooks one after the other. -/
theorem commits_late (sound : Sound h) (apart : Apart h) (apart' : Apart h')
    (ahead : Ahead h sim) (step : RunStep h (.commits c) h') :
    ∃ mid sim', SysStep sim c mid ∧ LateStep sim (some c) sim' ∧ Ahead h' sim' ∧
      (mid.net = sim.net → sim' = mid) := by
  cases follows_step sound apart apart' ahead step with
  | @takes _ mid sim' event taken spared points ahead' =>
    obtain rfl := Option.some.inj event
    have there : ∀ s ∈ pointed h.stages, s ∉ sim.net.destroyed := fun s lent =>
      ahead.net ▸ (sound.lawful.there lent).2
    exact ⟨mid, sim', taken, .takes taken there spared, ahead',
      fun same => spared_eq spared (same ▸ there)⟩
  | rests silent ahead' => cases silent
  | goes silent lent closed ahead' => cases silent

theorem commits_taken (sound : Sound h) (step : RunStep h (.commits c) h') :
    ∃ mid, SysStep h.sim c mid := by
  cases step with
  | whole free silent taken spared => exact ⟨_, taken⟩
  | uses found ran => exact ⟨_, (sound.finishes found ran).1⟩
  | @makes r args words seed result mid after begun four ran spared =>
    obtain ⟨whole, taken, -⟩ := SplitSeeding.finishSocket_reseeded (sound.asks begun) h.sim r seed
    rw [ran] at taken
    exact ⟨whole, taken⟩

theorem computes_late {r : ReplicaId} {memory : Memory} (sound : Sound h) (apart : Apart h)
    (apart' : Apart h') (ahead : Ahead h sim)
    (step : RunStep h (.commits (.compute r memory)) h') :
    Ahead h' (setMemory sim r memory) := by
  obtain ⟨mid, sim', wrote, -, ahead', settled⟩ := commits_late sound apart apart' ahead step
  obtain rfl : mid = setMemory sim r memory := wrote
  exact settled rfl ▸ ahead'

end Commits

theorem inside_silent {place : ReplicaId → Place} {e : RunEvent} (own : Inside table place e) :
    committed e = none := by
  cases e with
  | commits c => exact absurd own id
  | _ => rfl

theorem refines_step (hooked : ∀ sys, getHook table sys = hookMap.lookup sys)
    (gettid : ∀ r args host memory v host' memory',
      kernel r ⟨SYS_gettid, args⟩ host memory v host' memory' → host' = host ∧ memory' = memory)
    {s after : Traced κ} {e : Event} {t : Os κ} (refines : Refines s t) (sound : Sound s.hooks)
    (apart : Apart s.hooks) (apart' : Apart after.hooks)
    (taken : TracedStep kernel clock table s e after) :
    ∃ events t', Path (OsStep kernel clock) t events t' ∧
      events.filterMap OsEvent.seen = e.seen.toList ∧ Refines after t' := by
  obtain ⟨ahead, host, place⟩ := refines
  cases taken with
  | @calls r call memory hooks here wrote =>
    have there := (here ▸ place r).of_running
    exact ⟨[.calls r call], _, Path.start.snoc (.calls call memory there), rfl,
      computes_late sound apart apart' ahead wrote, host, samePlace_update place r (.entry call)⟩
  | @unhooked r call here null =>
    have there := (here ▸ place r).of_entry
    refine ⟨[], t, .start, rfl, ahead, host, fun q => ?_⟩
    have passing := samePlace_update place r (.passing (unhooked_real (hooked call.nr ▸ null))) q
    rwa [← there, update_eq_self] at passing
  | @inside e hooks own step =>
    have silent := inside_silent own
    cases follows_step sound apart apart' ahead step with
    | takes event taken spared points ahead' => cases silent.symm.trans event
    | rests silent ahead' => exact ⟨[], t, .start, rfl, ahead', host, place⟩
    | @goes s' silent lent closed ahead' =>
      have made : s' < t.sim.nextObject := ahead.nextObject ▸ (sound.lawful.there lent).1
      have gone := LateStep.goes made (ahead.fdTables ▸ closed)
      exact ⟨[.frees], _, Path.start.snoc (.frees gone), rfl, ahead', host, place⟩
  | @passed r call hook e hooks here found ran step =>
    have there := (here ▸ place r).of_entry
    obtain ⟨mid, sim', done, -, ahead', settled⟩ := commits_late sound apart apart' ahead step
    have again := ran.of_memories ahead.memory
    rcases dispatch_passes (hooked call.nr ▸ found) again done with ⟨-, answered⟩ | ⟨real, -, rfl⟩
    · exact absurd rfl answered
    · refine ⟨[], t, .start, rfl, settled rfl ▸ ahead', host, fun q => ?_⟩
      have passing := samePlace_update place r (.passing real) q
      rwa [← there, update_eq_self] at passing
  | @answered r call hook v e hooks here found ran step =>
    have there := (here ▸ place r).of_entry
    have number := hooked call.nr ▸ found
    obtain ⟨mid, sim', done, late, ahead', -⟩ := commits_late sound apart apart' ahead step
    have again := ran.of_memories ahead.memory
    rcases dispatch_passes number again done with ⟨simulated, -⟩ | ⟨-, passed, -⟩
    · exact ⟨[.serves r], _, Path.start.snoc (.serves there simulated number again late), rfl,
        ahead', host, samePlace_update place r (.replacing call.args v)⟩
    · cases passed
  | @runs r call v host' memory hooks here returns ran wrote =>
    obtain ⟨there, real⟩ := (here ▸ place r).of_passing
    rw [← host, ← ahead.memory] at ran
    have served : OsStep kernel clock t (.runs r) _ := .runs there real returns ran
    refine ⟨[.runs r, .returns r v], _,
      (Path.start.snoc served).snoc (.returns (update_self r _ t.place)), rfl,
      computes_late sound apart apart' ahead wrote, rfl, ?_⟩
    rw [update_idem]
    exact samePlace_update place r .running
  | @exits r call here exits =>
    obtain ⟨there, real⟩ := (here ▸ place r).of_passing
    exact ⟨[.exits r], _, Path.start.snoc (.exits there real exits), rfl, ahead, host,
      samePlace_update place r .exited⟩
  | @replaced r args v rval host' memory hooks here ran wrote =>
    have there := (here ▸ place r).of_replacing
    obtain ⟨rfl, rfl⟩ := gettid _ _ _ _ _ _ _ ran
    have kept := computes_late sound apart apart' ahead wrote
    rw [← ahead.memory, setMemory_self] at kept
    exact ⟨[.returns r v], _, Path.start.snoc (.returns there), rfl, kept, host,
      samePlace_update place r .running⟩

/-- What a tracer step does to the simulation is a step of the hooks, or nothing. -/
theorem hooks_step {s after : Traced κ} {e : Event}
    (taken : TracedStep kernel clock table s e after) :
    after.hooks = s.hooks ∨ ∃ e', RunStep s.hooks e' after.hooks := by
  cases taken with
  | calls call memory here wrote => exact Or.inr ⟨_, wrote⟩
  | unhooked here null => exact Or.inl rfl
  | inside own step => exact Or.inr ⟨_, step⟩
  | passed here found ran step => exact Or.inr ⟨_, step⟩
  | answered here found ran step => exact Or.inr ⟨_, step⟩
  | runs here returns ran wrote => exact Or.inr ⟨_, wrote⟩
  | exits here exits => exact Or.inl rfl
  | replaced here ran wrote => exact Or.inr ⟨_, wrote⟩

theorem hooks_sound {s after : Traced κ} {e : Event} (sound : Sound s.hooks)
    (taken : TracedStep kernel clock table s e after) : Sound after.hooks := by
  rcases hooks_step taken with same | ⟨e', step⟩
  · rwa [same]
  · exact sound_step sound step

theorem hooks_path {s after : Traced κ} {past : List Event}
    (path : Path (TracedStep kernel clock table) s past after) :
    ∃ events, Path RunStep s.hooks events after.hooks := by
  induction path with
  | start => exact ⟨[], .start⟩
  | snoc _ last ih =>
    obtain ⟨events, front⟩ := ih
    rcases hooks_step last with same | ⟨e', step⟩
    · exact ⟨events, same ▸ front⟩
    · exact ⟨events ++ [e'], front.snoc step⟩

def Traced.start (seed : U64) (netFaults : FaultSampling.FaultOptions)
    (memories : ReplicaId → Memory) (host : κ) : Traced κ :=
  ⟨RunningHooks.start seed netFaults memories, host, fun _ => .running⟩

def Os.start (sim : Sim) (host : κ) : Os κ := ⟨sim, host, fun _ => .running⟩

section Runs
variable {seed : U64} {netFaults : FaultSampling.FaultOptions} {memories : ReplicaId → Memory}
variable {host : κ} {past : List Event} {s : Traced κ}

theorem refines_path (hooked : ∀ sys, getHook table sys = hookMap.lookup sys)
    (gettid : ∀ r args host memory v host' memory',
      kernel r ⟨SYS_gettid, args⟩ host memory v host' memory' → host' = host ∧ memory' = memory)
    (path : Path (TracedApart kernel clock table) (.start seed netFaults memories host) past s) :
    ∃ events t, Path (OsStep kernel clock) (.start (Sim.start seed netFaults memories) host)
        events t ∧
      events.filterMap OsEvent.seen = past.filterMap Event.seen ∧ Refines s t := by
  have matched : ∀ (s : Traced κ) (e : Event) (s' : Traced κ) (t : Os κ),
      Refines s t ∧ Sound s.hooks ∧ Apart s.hooks → TracedApart kernel clock table s e s' →
        ∃ events t', Path (OsStep kernel clock) t events t' ∧
          events.filterMap OsEvent.seen = e.seen.toList ∧
          Refines s' t' ∧ Sound s'.hooks ∧ Apart s'.hooks := by
    rintro s e s' t ⟨refines, sound, apart⟩ ⟨taken, apart'⟩
    obtain ⟨events, t', run, same, refines'⟩ :=
      refines_step hooked gettid refines sound apart apart' taken
    exact ⟨events, t', run, same, refines', hooks_sound sound taken, apart'⟩
  have start : Refines (Traced.start seed netFaults memories host)
      (Os.start (Sim.start seed netFaults memories) host) :=
    ⟨ahead_start _, rfl, fun _ => .running⟩
  obtain ⟨events, t, run, same, refines, -⟩ :=
    weak_simulation (fun s t => Refines s t ∧ Sound s.hooks ∧ Apart s.hooks) Event.seen
      OsEvent.seen matched ⟨start, sound_start seed netFaults memories, apart_start _⟩ path
  exact ⟨events, t, run, same, refines⟩

/-- Hooks of all tracers may overlap, but for the making of datagram sockets. In every such run
the programs see what they see in some run of an operating system in which each call takes
effect at one moment, in the simulation if it is simulated and in the kernel if not. At the
end the kernel is the same, and the simulation but for the draws of a socket that is being
made. The simulation takes the steps of the hooks only. -/
theorem traced_refines_os {granted : Nat → Nat → Bool} {beyond : U64}
    (built : (buildHookTable granted hookMap beyond).table = some table)
    (gettid : ∀ r args host memory v host' memory',
      kernel r ⟨SYS_gettid, args⟩ host memory v host' memory' → host' = host ∧ memory' = memory)
    (path : Path (TracedApart kernel clock table) (.start seed netFaults memories host) past s) :
    (∃ events t, Path (OsStep kernel clock) (.start (Sim.start seed netFaults memories) host)
        events t ∧
      events.filterMap OsEvent.seen = past.filterMap Event.seen ∧
      Ahead s.hooks t.sim ∧ t.host = s.host) ∧
      ∃ events, Path RunStep (RunningHooks.start seed netFaults memories) events s.hooks := by
  have hooked := build_lookup hookMap_distinct built
  obtain ⟨events, t, run, same, refines⟩ := refines_path hooked gettid path
  exact ⟨⟨events, t, run, same, refines.ahead, refines.host⟩,
    hooks_path (path_mono And.left path)⟩

/-- The call that a step makes the kernel run for a program. -/
def Event.kernelCall : Event → Option (ReplicaId × TraceLoop.Call)
  | runs r call _ => some (r, call)
  | exits r call => some (r, call)
  | _ => none

/-- A call in progress was made by its program, and one that is passed is not simulated. -/
structure Sorted (past : List Event) (s : Traced κ) : Prop where
  entry : ∀ {r call}, s.place r = .entry call → .calls r call ∈ past
  passing : ∀ {r call}, s.place r = .passing call → .calls r call ∈ past ∧ ¬Simulated call
  kernel : ∀ x ∈ past.filterMap Event.kernelCall, .calls x.1 x.2 ∈ past ∧ ¬Simulated x.2

/-- A step moves at most one program, and what the kernel runs then is not simulated. -/
theorem Sorted.moved {past : List Event} {s after : Traced κ} (sorted : Sorted past s)
    {e : Event} {r : ReplicaId} {p : Place} (place : after.place = update s.place r p)
    (entry : ∀ {call}, p = .entry call → .calls r call ∈ past ++ [e])
    (passing : ∀ {call}, p = .passing call → .calls r call ∈ past ∧ ¬Simulated call)
    (kernel : ∀ x, e.kernelCall = some x → .calls x.1 x.2 ∈ past ∧ ¬Simulated x.2) :
    Sorted (past ++ [e]) after := by
  have places : ∀ {q p'}, after.place q = p' → q = r ∧ p = p' ∨ s.place q = p' := by
    intro q p' here
    rw [place] at here
    by_cases own : q = r
    · rw [own, update_self] at here
      exact Or.inl ⟨own, here⟩
    · rw [update_of_ne own] at here
      exact Or.inr here
  refine ⟨fun here => ?_, fun here => ?_, fun x member => ?_⟩
  · rcases places here with ⟨rfl, new⟩ | old
    · exact entry new
    · exact List.mem_append_left _ (sorted.entry old)
  · rcases places here with ⟨rfl, new⟩ | old
    · exact (passing new).imp_left (List.mem_append_left _)
    · exact (sorted.passing old).imp_left (List.mem_append_left _)
  · rw [filterMap_snoc, List.mem_append, Option.mem_toList] at member
    rcases member with old | new
    · exact (sorted.kernel x old).imp_left (List.mem_append_left _)
    · exact (kernel x new).imp_left (List.mem_append_left _)

theorem sorted_step (hooked : ∀ sys, getHook table sys = hookMap.lookup sys) {past : List Event}
    {s after : Traced κ} {e : Event} (sound : Sound s.hooks) (sorted : Sorted past s)
    (taken : TracedStep kernel clock table s e after) : Sorted (past ++ [e]) after := by
  cases taken with
  | @calls r call memory hooks here wrote =>
    refine sorted.moved (p := .entry call) rfl ?_ nofun nofun
    intro call' same
    rw [Place.entry.inj same]
    exact List.mem_append_right past (List.mem_singleton.mpr rfl)
  | @unhooked r call here null =>
    refine sorted.moved (p := .passing call) rfl nofun ?_ nofun
    intro call' same
    obtain rfl := Place.passing.inj same
    exact ⟨sorted.entry here, unhooked_real (hooked call.nr ▸ null)⟩
  | inside own step =>
    have still : s.place = update s.place 0 (s.place 0) := (update_eq_self 0 s.place).symm
    exact sorted.moved still (fun here => List.mem_append_left _ (sorted.entry here))
      sorted.passing nofun
  | @passed r call hook e hooks here found ran step =>
    refine sorted.moved (p := .passing call) rfl nofun ?_ nofun
    intro call' same
    obtain rfl := Place.passing.inj same
    obtain ⟨mid, done⟩ := commits_taken sound step
    rcases dispatch_passes (hooked call.nr ▸ found) ran done with ⟨-, answered⟩ | ⟨real, -⟩
    · exact absurd rfl answered
    · exact ⟨sorted.entry here, real⟩
  | @answered r call hook v e hooks here found ran step =>
    exact sorted.moved (p := .replacing call.args v) rfl nofun nofun nofun
  | @runs r call v host memory hooks here returns ran wrote =>
    refine sorted.moved (p := .running) rfl nofun nofun ?_
    intro x same
    obtain rfl := Option.some.inj same
    exact sorted.passing here
  | @exits r call here exits =>
    refine sorted.moved (p := .exited) rfl nofun nofun ?_
    intro x same
    obtain rfl := Option.some.inj same
    exact sorted.passing here
  | replaced here ran wrote => exact sorted.moved (p := .running) rfl nofun nofun nofun

/-- However the hooks of all tracers overlap, the kernel runs besides `gettid` only calls that
the programs made and that are not simulated: of the calls with a hook no socket, no clock
and no number of the simulator reaches it. A call without a hook reaches it with any number. -/
theorem kernel_runs_real {granted : Nat → Nat → Bool} {beyond : U64}
    (built : (buildHookTable granted hookMap beyond).table = some table)
    (path : Path (TracedStep kernel clock table) (.start seed netFaults memories host) past s) :
    ∀ r call, (r, call) ∈ past.filterMap Event.kernelCall →
      .calls r call ∈ past ∧ ¬Simulated call := by
  have hooked := build_lookup hookMap_distinct built
  have start : Sorted [] (Traced.start seed netFaults memories host) := ⟨nofun, nofun, nofun⟩
  have kept : Sound s.hooks ∧ Sorted past s :=
    history_invariant (fun past s => Sound s.hooks ∧ Sorted past s)
      ⟨sound_start seed netFaults memories, start⟩
      (fun _ _ _ _ kept taken =>
        ⟨hooks_sound kept.1 taken, sorted_step hooked kept.1 kept.2 taken⟩) path
  exact fun r call member => kept.2.kernel (r, call) member

end Runs

end Refinement

/-! A program opens a socket and then reads from a descriptor of the kernel. -/

/-- A kernel whose calls return zero and do nothing. -/
def idle : Kernel Unit := fun _ _ _ memory v _ memory' => v = 0 ∧ memory' = memory

def still : ReplicaId → VirtualClock.Scale := fun _ => ⟨1, 0⟩

def opensSocket : TraceLoop.Call := ⟨SYS_socket, #v[1, 2, 0, 0, 0, 0]⟩

def readsReal : TraceLoop.Call := ⟨SYS_read, #v[0, 0, 0, 0, 0, 0]⟩

/-- Replica 3 alone makes calls, and its hook is not running. -/
def stopped (sim : Sim) (p : Place) : Traced Unit :=
  ⟨⟨sim, fun _ => none⟩, (), update (fun _ => .running) 3 p⟩

section Example
variable {table : List (Option Hook)}

theorem stopped_at (sim : Sim) (p : Place) : (stopped sim p).place 3 = p := by
  simp only [stopped, update_self]

theorem stopped_outside (sim : Sim) :
    stopped sim .running = ⟨⟨sim, fun _ => none⟩, (), fun _ => .running⟩ := by
  rw [stopped, update_eq_self 3 fun _ => Place.running]

/-- Replica 3 writes nothing. -/
theorem stays (sim : Sim) : RunStep ⟨sim, fun _ => none⟩ (.commits (.compute 3 (sim.memories 3)))
    ⟨sim, fun _ => none⟩ :=
  .whole rfl id (setMemory_self sim 3).symm (spared_none pointed_start)

/-- A step of replica 3 after which its hook is not running. -/
theorem stopped_step {s : Traced Unit} {e : Event} {sim : Sim} {p q : Place}
    (step : TracedStep idle still table s e
      ⟨⟨sim, fun _ => none⟩, (), update (stopped sim p).place 3 q⟩) :
    TracedApart idle still table s e (stopped sim q) := by
  rw [stopped, update_idem] at step
  exact ⟨step, apart_start sim⟩

/-- What happens inside of hooks, seen from the tracers. -/
theorem inside_path {h h' : Running} {place : ReplicaId → Place} {events : List RunEvent}
    (path : Path ApartStep h events h') (own : ∀ e ∈ events, Inside table place e) :
    Path (TracedApart idle still table) ⟨h, (), place⟩ (events.map .inside) ⟨h', (), place⟩ := by
  induction path with
  | start => exact .start
  | snoc before last ih =>
    rw [List.map_append]
    have front := ih fun e member => own e (List.mem_append_left _ member)
    have mine := own _ (List.mem_append_right _ (List.mem_singleton.mpr rfl))
    exact front.snoc ⟨.inside mine last.1, last.2⟩

theorem answered_runs (hooked : ∀ sys, getHook table sys = hookMap.lookup sys) {sim after : Sim}
    (made : SysStep sim (.call 3 .socket opensSocket.args (.handled 0x40000000)) after) :
    Path (TracedApart idle still table) (stopped sim .running)
      [.calls 3 opensSocket, .inside (.seeds 3 opensSocket.args), .inside (.draws 3),
        .inside (.draws 3), .inside (.draws 3), .inside (.draws 3), .answers 3,
        .replaces 3 0x40000000] (stopped after .running) := by
  have found : getHook table opensSocket.nr = some .sysSocket := by
    rw [hooked]
    decide +kernel
  have entered := stopped_at sim (.entry opensSocket)
  obtain ⟨t, draws, makes⟩ := socket_path (by decide) made
  have calls : TracedApart idle still table (stopped sim .running) (.calls 3 opensSocket)
      (stopped sim (.entry opensSocket)) :=
    stopped_step (.calls opensSocket (sim.memories 3) (stopped_at _ _) (stays sim))
  have own : ∀ e ∈ RunEvent.seeds 3 opensSocket.args :: List.replicate 4 (.draws 3),
      Inside table (stopped sim (.entry opensSocket)).place e := by
    intro e member
    rcases List.mem_cons.mp member with rfl | drawn
    · exact ⟨opensSocket, entered, rfl, found⟩
    · obtain rfl := List.eq_of_mem_replicate drawn
      trivial
  have inside := inside_path (path_mono And.left draws) own
  have answers : TracedApart idle still table
      ⟨t, (), (stopped sim (.entry opensSocket)).place⟩ (.answers 3)
      (stopped after (.replacing opensSocket.args 0x40000000)) :=
    stopped_step (.answered entered found (.calls .socket _) makes.1.1)
  have replaces : TracedApart idle still table
      (stopped after (.replacing opensSocket.args 0x40000000)) (.replaces 3 0x40000000)
      (stopped after .running) :=
    stopped_step (.replaced (stopped_at _ _) ⟨rfl, rfl⟩ (stays after))
  exact ((path_cons calls inside).snoc answers).snoc replaces

theorem passed_runs (hooked : ∀ sys, getHook table sys = hookMap.lookup sys) (sim : Sim) :
    Path (TracedApart idle still table) (stopped sim .running)
      [.calls 3 readsReal, .dispatches 3, .runs 3 readsReal 0] (stopped sim .running) := by
  have found : getHook table readsReal.nr = some .sysRead := by
    rw [hooked]
    decide +kernel
  have outside : isSimulated ((readsReal.args.get 0).setWidth 32) = false := by decide
  have real : sysRead sim 3 readsReal.args = (.passthrough, sim) := by
    simp only [sysRead, if_pos outside]
  let around : Surroundings := ⟨⟨fun _ rng => (false, rng), fun _ => 0⟩, 0, 0, fun _ => 0⟩
  have read : SysStep sim (.call 3 .read readsReal.args .passthrough) sim :=
    ⟨around, congrArg some real⟩
  have calls : TracedApart idle still table (stopped sim .running) (.calls 3 readsReal)
      (stopped sim (.entry readsReal)) :=
    stopped_step (.calls readsReal (sim.memories 3) (stopped_at _ _) (stays sim))
  have dispatches : TracedApart idle still table (stopped sim (.entry readsReal)) (.dispatches 3)
      (stopped sim (.passing readsReal)) :=
    stopped_step (.passed (stopped_at _ _) found (.calls .read _)
      (.whole rfl id read (spared_none pointed_start)))
  have runs : TracedApart idle still table (stopped sim (.passing readsReal))
      (.runs 3 readsReal 0) (stopped sim .running) :=
    stopped_step (.runs (stopped_at _ _) (by decide) ⟨rfl, rfl⟩ (stays sim))
  exact ((Path.start.snoc calls).snoc dispatches).snoc runs

end Example

def freshSim : Sim := Sim.start 7 FaultSampling.defaultFaults fun _ _ => none

theorem socket_opened : SysStep freshSim (.call 3 .socket opensSocket.args (.handled 0x40000000))
    (sysSocket freshSim 3 opensSocket.args).2 := by
  let around : Surroundings := ⟨⟨fun _ rng => (false, rng), fun _ => 0⟩, 0, 0, fun _ => 0⟩
  have made : (sysSocket freshSim 3 opensSocket.args).1 = .handled 0x40000000 := by
    decide +kernel
  exact ⟨around, congrArg some (Prod.ext made rfl)⟩

/-- Both calls, from the start. -/
theorem both_run {table : List (Option Hook)}
    (hooked : ∀ sys, getHook table sys = hookMap.lookup sys) :
    ∃ past s, Path (TracedApart idle still table)
        (.start 7 FaultSampling.defaultFaults (fun _ _ => none) ()) past s ∧
      past.filterMap Event.seen = [.call 3 opensSocket, .result 3 0x40000000,
        .call 3 readsReal, .result 3 0] ∧
      past.filterMap Event.kernelCall = [(3, readsReal)] := by
  have path := path_trans (answered_runs hooked socket_opened) (passed_runs hooked _)
  rw [stopped_outside] at path
  exact ⟨_, _, path, rfl, rfl⟩

theorem traced_refines_os_socket :
    ∃ (events : List OsEvent) (t : Os Unit),
      Path (OsStep idle still) (.start freshSim ()) events t ∧
        events.filterMap OsEvent.seen = [.call 3 opensSocket, .result 3 0x40000000,
          .call 3 readsReal, .result 3 0] := by
  obtain ⟨table, built, hooked, -⟩ := hookMap_built (show (0 : U64).toNat < maxSize by decide)
  obtain ⟨past, s, path, seen, -⟩ := both_run hooked
  have gettid : ∀ (r : ReplicaId) (args : Args) (host : Unit) (memory : Memory) (v : U64)
      (host' : Unit) (memory' : Memory), idle r ⟨SYS_gettid, args⟩ host memory v host' memory' →
        host' = host ∧ memory' = memory := fun _ _ _ _ _ _ _ ran => ⟨rfl, ran.2⟩
  obtain ⟨⟨events, t, run, same, -⟩, -⟩ := traced_refines_os built gettid path
  exact ⟨events, t, run, same.trans seen⟩

theorem kernel_runs_real_read : ¬Simulated readsReal := by
  obtain ⟨table, built, hooked, -⟩ := hookMap_built (show (0 : U64).toNat < maxSize by decide)
  obtain ⟨past, s, path, -, calls⟩ := both_run hooked
  have ran : (3, readsReal) ∈ past.filterMap Event.kernelCall := by
    rw [calls]
    exact List.mem_singleton.mpr rfl
  exact (kernel_runs_real built (path_mono And.left path) 3 readsReal ran).2

end TracedSystem
