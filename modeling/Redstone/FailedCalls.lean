import Redstone.HookOutcomes

/-!
# Calls that fail

A failed call should leave the system as it was. Two things go wrong. The lookup uses
`operator[]` on the table, where `close` uses `find`, so asking for a number that was
never opened changes the number that comes next. A datagram socket draws its seed before
`sys_socket` finds that no number is left.
-/

namespace FailedCalls

open MachineWords Generators SocketAddr Network DatagramPipe FdTable
open TraceLoop (Args HookResult)
open SocketSeeds (ReplicaId AddressFamily family SOCK_STREAM SOCK_DGRAM)
open Syscalls HookOutcomes StepRuns Function

/-- The number that the next successful insert returns, if one can succeed now. -/
def nextFd (t : Table SocketId) : Option CInt :=
  match t.unused.getLast? with
  | some fd => some fd
  | none => if capacity ≤ t.size then none else some (simulatedFd t.size)

theorem insert_nextFd (t : Table SocketId) (d : Option SocketId) :
    (t.insert d).1 = (nextFd t).getD (-1) := by
  cases free : t.unused.getLast? with
  | some fd => simp only [Table.insert, nextFd, free, Option.getD_some]
  | none =>
    by_cases full : capacity ≤ t.size
    · simp only [Table.insert, nextFd, free, if_pos full, Option.getD_none]
    · simp only [Table.insert, nextFd, free, if_neg full, Option.getD_some]

/-- A successful `sys_socket` returns that number. -/
theorem sysSocket_nextFd {sim after : Sim} {r : ReplicaId} {args : Args} {v : U64}
    (wf : WellFormed sim) (ran : sysSocket sim r args = (.handled v, after))
    (success : 0 ≤ v.toInt) :
    ∃ fd, nextFd (sim.fdTables r) = some fd ∧ v = fd.signExtend 64 := by
  rcases sysSocket_cases (wf.numbers r) ran with ⟨failing, _⟩ |
    ⟨af, sock, made, _, _, ⟨failing, _⟩ | ⟨fd, table, inserted, nonneg, result, _⟩⟩
  · rw [HookResult.handled.inj failing] at success
    exact absurd success (by decide)
  · rw [HookResult.handled.inj failing] at success
    exact absurd success (by decide)
  · have number := insert_nextFd (sim.fdTables r) (some sock)
    rw [inserted] at number
    cases next : nextFd (sim.fdTables r) with
    | none =>
      simp only [next, Option.getD_none] at number
      rw [number] at nonneg
      exact absurd nonneg refused_negative
    | some a =>
      simp only [next, Option.getD_some] at number
      exact ⟨a, rfl, number ▸ HookResult.handled.inj result⟩

/-- What a failed call leaves as it was. An object's queue and generator are in it. -/
structure Unchanged (sim after : Sim) : Prop where
  descriptors : ∀ r fd, (after.fdTables r).live fd = (sim.fdTables r).live fd
  next : ∀ r, nextFd (after.fdTables r) = nextFd (sim.fdTables r)
  resolution : after.net.resolve = sim.net.resolve
  sockets : ∀ s < sim.nextObject, after.objects s = sim.objects s
  rng : after.rng = sim.rng

/-- Looking `fd` up leaves an entry that moves the next number. -/
def Grows (t : Table SocketId) (fd : CInt) : Prop :=
  fd ∉ t.table ∧ t.unused = [] ∧ t.size < capacity

/-- A datagram socket is made, and no number is left for it. -/
structure Drained (sim : Sim) (r : ReplicaId) (args : Args) : Prop where
  known : (family ((args.get 0).setWidth 32)).isSome
  datagram : (args.get 1).setWidth 32 = SOCK_DGRAM
  unused : (sim.fdTables r).unused = []
  full : capacity ≤ (sim.fdTables r).size
  moves : sim.rng ≠ Xoshiro.zero

/-- The states and arguments from which a failing call leaves a trace. -/
inductive Leaks (around : Surroundings) (sim : Sim) (r : ReplicaId) (args : Args) :
    Call → Prop
  | read (grows : Grows (sim.fdTables r) ((args.get 0).setWidth 32)) :
      Leaks around sim r args .read
  | write (grows : Grows (sim.fdTables r) ((args.get 0).setWidth 32)) :
      Leaks around sim r args .write
  | bind (grows : Grows (sim.fdTables r) ((args.get 0).setWidth 32)) :
      Leaks around sim r args .bind
  | sendto (parses : Parses around sim r (args.get 4) (args.get 5))
      (grows : Grows (sim.fdTables r) ((args.get 0).setWidth 32)) :
      Leaks around sim r args .sendto
  | connect (parses : Parses around sim r (args.get 1) (args.get 2))
      (grows : Grows (sim.fdTables r) ((args.get 0).setWidth 32)) :
      Leaks around sim r args .connect
  | socket (drained : Drained sim r args) : Leaks around sim r args .socket

theorem nextFd_fresh {t : Table SocketId} (drained : t.unused = []) (room : t.size < capacity) :
    nextFd t = some (simulatedFd t.size) := by
  simp only [nextFd, drained, List.getLast?_nil, if_neg (Nat.not_le.mpr room)]

/-- A lookup moves the next number exactly when it makes an entry that is counted. -/
theorem nextFd_get (t : Table SocketId) (fd : CInt) :
    nextFd (t.get fd).2 = nextFd t ↔ ¬Grows t fd := by
  cases entry : t.table.lookup fd with
  | some slot =>
    have present : fd ∈ t.table := Finmap.mem_of_lookup_eq_some entry
    have same : (t.get fd).2 = t := by simp only [Table.get, entry]
    rw [same]
    exact ⟨fun _ grows => grows.1 present, fun _ => rfl⟩
  | none =>
    have missing : fd ∉ t.table := Finmap.lookup_eq_none.mp entry
    have grown : (t.get fd).2 = { t with table := t.table.insert fd none } := by
      simp only [Table.get, entry]
    have size : (t.get fd).2.size = t.size + 1 := by
      rw [grown, Table.size, Table.keys_insert, Finset.card_insert_of_notMem
        (fun h => missing (Finmap.mem_keys.mp h)), Table.size]
    have unused : (t.get fd).2.unused = t.unused := (t.get_spec fd).2.2.1
    cases free : t.unused.getLast? with
    | some a =>
      have kept : nextFd (t.get fd).2 = nextFd t := by
        simp only [nextFd, unused, free]
      refine ⟨fun _ grows => ?_, fun _ => kept⟩
      rw [grows.2.1] at free
      cases free
    | none =>
      have drained : t.unused = [] := List.getLast?_eq_none_iff.mp free
      by_cases full : capacity ≤ t.size
      · have kept : nextFd (t.get fd).2 = nextFd t := by
          simp only [nextFd, unused, free, size, if_pos full, if_pos (Nat.le_succ_of_le full)]
        exact ⟨fun _ grows => absurd grows.2.2 (Nat.not_lt.mpr full), fun _ => kept⟩
      · have room : t.size < capacity := Nat.not_le.mp full
        refine ⟨fun same => ?_, fun still => absurd ⟨missing, drained, room⟩ still⟩
        rw [nextFd_fresh drained room] at same
        by_cases last : capacity ≤ t.size + 1
        · simp only [nextFd, unused, free, size, if_pos last] at same
          cases same
        · rw [nextFd_fresh (unused.trans drained) (by omega), size] at same
          have limit : capacity < 2 ^ 30 := by decide
          have equal := simulatedFd_inj (by omega) (by omega) (Option.some.inj same)
          omega

theorem Unchanged.refl (sim : Sim) : Unchanged sim sim :=
  ⟨fun _ _ => rfl, fun _ => rfl, rfl, fun _ _ => rfl, rfl⟩

theorem lookedUp_unchanged_iff {sim after : Sim} {r : ReplicaId} {fd : CInt}
    (looked : LookedUp sim r fd after) :
    Unchanged sim after ↔ ¬Grows (sim.fdTables r) fd := by
  have tables : after.fdTables = update sim.fdTables r ((sim.fdTables r).get fd).2 :=
    looked.tables
  rw [← nextFd_get]
  constructor
  · intro same
    have here := same.next r
    rwa [tables, update_self] at here
  · intro kept
    refine ⟨?_, ?_, looked.owners, fun s _ => congrFun looked.objects s, looked.rng⟩
    · intro q a
      rw [tables]
      by_cases here : q = r
      · rw [here, update_self]
        exact congrFun ((sim.fdTables r).get_spec fd).2.1 a
      · rw [update_of_ne here]
    · intro q
      rw [tables]
      by_cases here : q = r
      · rw [here, update_self]
        exact kept
      · rw [update_of_ne here]

theorem outcome_unchanged_iff {sim after : Sim} {r : ReplicaId} {fd : CInt} {parsed : Prop}
    {v : U64} (outcome : Outcome sim r fd parsed (.handled v) after) (negative : v.toInt < 0) :
    Unchanged sim after ↔ ¬(parsed ∧ Grows (sim.fdTables r) fd) := by
  cases outcome with
  | unparsed v bad => exact ⟨fun _ grows => bad grows.1, fun _ => Unchanged.refl sim⟩
  | refused v good looked => rw [lookedUp_unchanged_iff looked, and_iff_right good]
  | served v nonneg => exact absurd nonneg (Int.not_le.mpr negative)

theorem close_unchanged {sim after : Sim} {r : ReplicaId} {args : Args} {v : U64}
    (ran : sysClose sim r args = (.handled v, after)) (negative : v.toInt < 0) :
    Unchanged sim after := by
  by_cases real : isSimulated ((args.get 0).setWidth 32) = false
  · simp only [sysClose, if_pos real, Prod.mk.injEq] at ran
    cases ran.1
  · simp only [sysClose, if_neg real] at ran
    rcases close_cases (sim.fdTables r) ((args.get 0).setWidth 32) with ⟨closed, same⟩ |
      ⟨s, live, result⟩
    · simp only [closed, same, update_eq_self, Prod.mk.injEq] at ran
      rw [← ran.2]
      exact Unchanged.refl sim
    · simp only [live, result, Prod.mk.injEq] at ran
      rw [← HookResult.handled.inj ran.1] at negative
      exact absurd negative (by decide)

/-- A refused socket goes away again; the words drawn for its seed do not come back. -/
theorem socket_unchanged_iff {sim after : Sim} {r : ReplicaId} {args : Args} {v : U64}
    (wf : WellFormed sim) (ran : sysSocket sim r args = (.handled v, after))
    (negative : v.toInt < 0) : Unchanged sim after ↔ ¬Drained sim r args := by
  rcases sysSocket_cases (wf.numbers r) ran with ⟨_, same, unmade⟩ |
    ⟨af, sock, made, known, making, ⟨_, released, drained, full⟩ | ⟨fd, _, _, nonneg, result, _⟩⟩
  · rw [same]
    refine ⟨fun _ leak => ?_, fun _ => Unchanged.refl sim⟩
    obtain ⟨af, known⟩ := Option.isSome_iff_exists.mp leak.known
    have refused := unmade af known
    rw [leak.datagram] at refused
    cases refused
  · obtain ⟨identity, _, tables, net, objects, rng⟩ := makeSocket_made making
    have owners : after.net.resolve = sim.net.resolve := by
      funext a
      rw [released, Sim.release, Net.destroy_spec, net]
      cases owned : sim.net.resolve a with
      | none => rfl
      | some s =>
        have older := Nat.ne_of_lt (wf.bound a s owned)
        rw [Option.filter_some, identity]
        simp only [older, ne_eq, not_false_eq_true, decide_true, if_true]
    have drawn : after.rng = made.rng := by
      rw [released]
      rfl
    constructor
    · intro same leak
      have back := same.rng
      rw [drawn, rng, if_pos leak.datagram] at back
      exact leak.moves ((Xoshiro.advance_four_fixed_iff sim.rng).mp back)
    · intro still
      refine ⟨?_, ?_, owners, ?_, ?_⟩
      · intro q a
        rw [released]
        exact congrArg (fun t => (t q).live a) tables
      · intro q
        rw [released]
        exact congrArg (fun t => nextFd (t q)) tables
      · intro s older
        rw [released]
        exact objects s older
      · rw [drawn, rng]
        by_cases datagram : (args.get 1).setWidth 32 = SOCK_DGRAM
        · rw [if_pos datagram]
          refine (Xoshiro.advance_four_fixed_iff sim.rng).mpr ?_
          by_contra moves
          exact still ⟨Option.isSome_iff_exists.mpr ⟨af, known⟩, datagram, drained, full, moves⟩
        · rw [if_neg datagram]
  · rw [HookResult.handled.inj result, handledInt_toInt] at negative
    exact absurd nonneg (Int.not_le.mpr negative)

/-- In every reachable state, a call that fails leaves the system as it was exactly when
its lookup makes no counted entry and no datagram socket is seeded in vain. -/
theorem failed_call_unchanged_iff {seed : U64} {netFaults : FaultSampling.FaultOptions}
    {memories : ReplicaId → ChildMemory.Memory} {past : List SysEvent} {sim after : Sim}
    {around : Surroundings} {r : ReplicaId} {args : Args} {call : Call} {v : U64}
    (reached : Path SysStep (Sim.start seed netFaults memories) past sim)
    (ran : syscall around sim r args call = some (.handled v, after))
    (negative : v.toInt < 0) : Unchanged sim after ↔ ¬Leaks around sim r args call := by
  have wf := wellFormed_path (wellFormed_start seed netFaults memories) reached
  cases call with
  | read =>
    have outcome := sysRead_outcome sim r args
    rw [Option.some.inj ran] at outcome
    refine (outcome_unchanged_iff outcome negative).trans (not_congr ?_)
    exact ⟨fun leak => .read leak.2, fun | .read grows => ⟨trivial, grows⟩⟩
  | write =>
    have outcome := sysWrite_outcome sim r args
    rw [Option.some.inj ran] at outcome
    refine (outcome_unchanged_iff outcome negative).trans (not_congr ?_)
    exact ⟨fun leak => .write leak.2, fun | .write grows => ⟨trivial, grows⟩⟩
  | bind =>
    have outcome := sysBind_outcome around sim r args
    rw [Option.some.inj ran] at outcome
    refine (outcome_unchanged_iff outcome negative).trans (not_congr ?_)
    exact ⟨fun leak => .bind leak.2, fun | .bind grows => ⟨trivial, grows⟩⟩
  | connect =>
    have outcome := sysConnect_outcome around sim r args
    rw [Option.some.inj ran] at outcome
    refine (outcome_unchanged_iff outcome negative).trans (not_congr ?_)
    exact ⟨fun leak => .connect leak.1 leak.2, fun | .connect parses grows => ⟨parses, grows⟩⟩
  | sendto =>
    refine (outcome_unchanged_iff (sysSendto_outcome ran) negative).trans (not_congr ?_)
    exact ⟨fun leak => .sendto leak.1 leak.2, fun | .sendto parses grows => ⟨parses, grows⟩⟩
  | socket =>
    refine (socket_unchanged_iff wf (Option.some.inj ran) negative).trans (not_congr ?_)
    exact ⟨fun leak => .socket leak, fun | .socket drained => drained⟩
  | close =>
    refine ⟨fun _ leak => ?_, fun _ => close_unchanged (Option.some.inj ran) negative⟩
    cases leak

/-- A program that never opened anything reads from number 2^30 + 5. -/
theorem failed_read_renumbers :
    let sim := Sim.start 1 FaultSampling.defaultFaults fun _ _ => none
    let args : Args := #v[0x40000005, 0, 0, 0, 0, 0]
    (sysRead sim 0 args).1 = failed EBADF ∧ nextFd (sim.fdTables 0) = some 0x40000000 ∧
      nextFd ((sysRead sim 0 args).2.fdTables 0) = some 0x40000001 ∧
      ¬Unchanged sim (sysRead sim 0 args).2 := by
  refine ⟨rfl, by decide, by decide, ?_⟩
  intro same
  exact absurd (same.next 0) (by decide)

/-- After a socket was opened, reading from it fails and leaves no trace. -/
theorem failed_call_unchanged_read :
    let sim := Sim.start 1 FaultSampling.defaultFaults fun _ _ => none
    let opened := (sysSocket sim 0 #v[2, 1, 0, 0, 0, 0]).2
    let args : Args := #v[0x40000000, 0, 0, 0, 0, 0]
    (sysRead opened 0 args).1 = failed EINVAL ∧ Unchanged opened (sysRead opened 0 args).2 := by
  intro sim opened args
  let around : Surroundings := ⟨⟨fun _ rng => (false, rng), fun _ => 0⟩, 0, 0, fun _ => 0⟩
  have called : SysStep sim (.call 0 .socket #v[2, 1, 0, 0, 0, 0]
      (sysSocket sim 0 #v[2, 1, 0, 0, 0, 0]).1) opened := ⟨around, rfl⟩
  have result : (sysRead opened 0 args).1 = failed EINVAL := by decide +kernel
  have failing : syscall around opened 0 args .read =
      some (failed EINVAL, (sysRead opened 0 args).2) := congrArg some (Prod.ext result rfl)
  refine ⟨result, (failed_call_unchanged_iff (Path.start.snoc called) failing (by decide)).mpr ?_⟩
  rintro ⟨grows⟩
  exact grows.1 (by decide)

end FailedCalls
