import Redstone.LockOrder
import Redstone.Network
import Redstone.SocketSeeds

/-!
# The locks of the program

A worker of a replica calls `get_hook` and a hook for each system call. Hooks lock the table
of the replica, the network, a socket and its pipe, each for the length of a method. Of all
methods, `deliver` and those of an open file hold one lock while they take another.
-/

namespace NoDeadlock

open LockOrder StepRuns
open Network (SocketId)
open SocketSeeds (ReplicaId)

/-- The mutexes, each with the object that it is a member of. -/
inductive Lock where
  | hooks
  | handle (r : ReplicaId)
  | barrier (r : ReplicaId)
  | fdTable (r : ReplicaId)
  | network
  | socket (s : SocketId)
  | pipe (s : SocketId)
  | stream (s : SocketId)
  | openFile (h : Nat)
  | diskFile (f : Nat)
  deriving DecidableEq

def rank : Lock → Nat
  | .pipe _ => 1
  | .diskFile _ => 1
  | _ => 0

abbrev Script := List (Act Lock)

/-- The passes of a loop around `cond_.wait(lock)` that wait. -/
def waits (l : Lock) (times : Nat) : Script :=
  (List.replicate times [.unlock l, .sleep, .lock l]).flatten

/-! ## Methods -/

def getHook : Script := guarded .hooks []
def printStats : Script := guarded .hooks []

/-- What the worker does with `saved_state`, and `state`. -/
def saveState (r : ReplicaId) : Script := guarded (.handle r) []

def barrierWait (r : ReplicaId) (times : Nat) : Script :=
  guarded (.barrier r) (waits (.barrier r) times)

def tableGet (r : ReplicaId) : Script := guarded (.fdTable r) []
def tableClose (r : ReplicaId) : Script := guarded (.fdTable r) []
def tableInsert (r : ReplicaId) : Script := guarded (.fdTable r) []

def networkBind : Script := guarded .network []
def networkClear : Script := guarded .network []
def networkGet : Script := guarded .network []

/-- `datagram_pipe::send`, which returns before it locks if it drops the datagram. -/
def pipeSend (s : SocketId) (drop : Bool) : Script := if drop then [] else guarded (.pipe s) []

def pipeRecv (s : SocketId) (times : Nat) : Script := guarded (.pipe s) (waits (.pipe s) times)

def deliver (s : SocketId) (drop : Bool) : Script := guarded (.socket s) (pipeSend s drop)

/-- `stream_socket::send` locks its peer. -/
def streamSend (peer : SocketId) : Script := guarded (.stream peer) []

def streamRecv (s : SocketId) (times : Nat) : Script :=
  guarded (.stream s) (waits (.stream s) times)

def diskAccess (f : Nat) : Script := guarded (.diskFile f) []

/-- A method of an open file, with one access for each entry of the backlog that it writes
and for what it reads or writes itself. -/
def openFileCall (h f accesses : Nat) : Script :=
  guarded (.openFile h) (List.replicate accesses (diskAccess f)).flatten

/-! ## Hooks -/

/-- What a hook locks, by how far it comes. -/
inductive Hooked (r : ReplicaId) : Script → Prop where
  | passthrough : Hooked r []
  | clock : Hooked r []
  | refused : Hooked r []
  | sysRead : Hooked r (tableGet r)
  | sysWrite : Hooked r (tableGet r)
  | sysClose : Hooked r (tableClose r)
  | sysSocket : Hooked r (tableInsert r)
  | noSocket : Hooked r (tableGet r)
  | sysBind : Hooked r (tableGet r ++ networkBind)
  | sysConnect : Hooked r (tableGet r ++ networkGet)
  | unreachable : Hooked r (tableGet r ++ networkGet)
  | sysSendto (s : SocketId) (drop : Bool) :
      Hooked r (tableGet r ++ (networkGet ++ deliver s drop))
  | sysRecvfrom (s : SocketId) (times : Nat) : Hooked r (tableGet r ++ pipeRecv s times)

/-- What the threads of the program and those with open files do. -/
inductive Runs : Script → Prop where
  | handleTrapped (r : ReplicaId) {hook : Script} (hooked : Hooked r hook) : Runs (getHook ++ hook)
  | saveState (r : ReplicaId) : Runs (saveState r)
  | barrierWait (r : ReplicaId) (times : Nat) : Runs (barrierWait r times)
  | printStats : Runs printStats
  | networkClear : Runs networkClear
  | streamSend (peer : SocketId) : Runs (streamSend peer)
  | streamRecv (s : SocketId) (times : Nat) : Runs (streamRecv s times)
  | openFileCall (h f accesses : Nat) : Runs (openFileCall h f accesses)

/-! ## The order of the locks -/

theorem rank_bounded (l : Lock) : rank l < 2 := by
  cases l <;> simp [rank]

theorem ordered_short (l : Lock) : Ordered rank [] [] (guarded l []) :=
  ordered_guarded nofun rfl

/-- A thread that waits on a condition holds the lock that it waits with and no other. -/
theorem ordered_waiting (l : Lock) (times : Nat) :
    Ordered rank [] [] (guarded l (waits l times)) := by
  refine ordered_guarded nofun (ordered_flatten fun part member => ?_)
  rw [List.eq_of_mem_replicate member]
  exact ⟨rfl, rfl, nofun, rfl⟩

theorem ordered_nested {outer inner : Lock} (above : rank outer < rank inner) :
    Ordered rank [outer] [outer] (guarded inner []) :=
  ordered_guarded (fun h member => by rwa [List.mem_singleton.mp member]) rfl

theorem ordered_deliver (s : SocketId) (drop : Bool) : Ordered rank [] [] (deliver s drop) := by
  refine ordered_guarded nofun ?_
  cases drop with
  | true => rfl
  | false => exact ordered_nested Nat.zero_lt_one

theorem ordered_openFile (h f accesses : Nat) :
    Ordered rank [] [] (openFileCall h f accesses) := by
  refine ordered_guarded nofun (ordered_flatten fun part member => ?_)
  rw [List.eq_of_mem_replicate member]
  exact ordered_nested Nat.zero_lt_one

theorem ordered_hooked {r : ReplicaId} {hook : Script} (hooked : Hooked r hook) :
    Ordered rank [] [] hook := by
  cases hooked with
  | passthrough => rfl
  | clock => rfl
  | refused => rfl
  | sysRead => exact ordered_short _
  | sysWrite => exact ordered_short _
  | sysClose => exact ordered_short _
  | sysSocket => exact ordered_short _
  | noSocket => exact ordered_short _
  | sysBind => exact ordered_append (ordered_short _) (ordered_short _)
  | sysConnect => exact ordered_append (ordered_short _) (ordered_short _)
  | unreachable => exact ordered_append (ordered_short _) (ordered_short _)
  | sysSendto s drop =>
    exact ordered_append (ordered_short _)
      (ordered_append (ordered_short _) (ordered_deliver s drop))
  | sysRecvfrom s times => exact ordered_append (ordered_short _) (ordered_waiting _ times)

theorem ordered_runs (script : Script) (runs : Runs script) : Ordered rank [] [] script := by
  cases runs with
  | handleTrapped r hooked => exact ordered_append (ordered_short _) (ordered_hooked hooked)
  | saveState r => exact ordered_short _
  | barrierWait r times => exact ordered_waiting _ times
  | printStats => exact ordered_short _
  | networkClear => exact ordered_short _
  | streamSend peer => exact ordered_short _
  | streamRecv s times => exact ordered_waiting _ times
  | openFileCall h f accesses => exact ordered_openFile h f accesses

/-- In every state that any number of threads reach, a thread that waits for a lock waits for
one that gives a lock back or takes one now, or for one that waits for such a thread; and a
thread that sleeps in `wait` keeps no lock from others. -/
theorem never_stuck {τ : Type} [DecidableEq τ] {s : State τ Lock} {past : List (Event τ Lock)}
    (path : Path (LockStep Runs) idle past s) :
    (∀ t u, WaitsFor s t u → ∃ v, Relation.TransGen (WaitsFor s) t v ∧ ∃ l after,
      LockStep Runs s (.unlocks v l) after ∨ LockStep Runs s (.locks v l) after) ∧
      ∀ t rest, s.todo t = .sleep :: rest → ∀ l, s.owner l ≠ some t := by
  obtain ⟨held, consistent⟩ := consistent_path ordered_runs path
  refine ⟨fun t u waits => ?_, fun t rest asleep => sleeper_holds_none consistent asleep⟩
  obtain ⟨v, chain, able⟩ := leads_to_able consistent rank_bounded waits
  exact ⟨v, chain, able.step⟩

/-- Two open files of one file: the third thread waits for the second, and that one for the
first, which has the lock of the file. -/
theorem never_stuck_three :
    ∃ (s : State Nat Lock) (past : List (Event Nat Lock)), Path (LockStep Runs) idle past s ∧
      WaitsFor s 2 1 ∧ WaitsFor s 1 0 ∧
      ∃ v, Relation.TransGen (WaitsFor s) 2 v ∧ ∃ l after,
        LockStep Runs s (.unlocks v l) after ∨ LockStep Runs s (.locks v l) after := by
  have nothing : Path (LockStep Runs) (idle : State Nat Lock) [] idle := .start
  have begins := nothing.snoc (.calls (t := 0) rfl (Runs.openFileCall 1 5 1))
  have opens := begins.snoc (.locks (t := 0) rfl rfl)
  have accesses := opens.snoc (.locks (t := 0) rfl rfl)
  have second := accesses.snoc (.calls (t := 1) rfl (Runs.openFileCall 2 5 1))
  have opens' := second.snoc (.locks (t := 1) rfl rfl)
  have third := opens'.snoc (.calls (t := 2) rfl (Runs.openFileCall 2 5 1))
  exact ⟨_, _, third, ⟨.openFile 2, _, rfl, rfl⟩, ⟨.diskFile 5, _, rfl, rfl⟩,
    (never_stuck third).1 2 1 ⟨.openFile 2, _, rfl, rfl⟩⟩

end NoDeadlock
