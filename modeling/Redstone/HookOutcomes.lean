import Redstone.Syscalls

/-!
# What the hooks can do

The hooks that look a descriptor up end in one of four ways, with one case lemma for
each hook. From these follows what every reachable state keeps: the numbers of all
tables are non-negative, and every descriptor and every bound address belongs to an
object that was made.
-/

namespace HookOutcomes

open MachineWords SocketAddr Network DatagramPipe FaultSchedule FdTable ParseAddr
open SocketSeeds (ReplicaId AddressFamily family SOCK_STREAM SOCK_DGRAM)
open TraceLoop Syscalls StepRuns Function

/-- The state after a lookup, up to what network lookups insert. -/
structure LookedUp (sim : Sim) (r : ReplicaId) (fd : CInt) (after : Sim) : Prop where
  tables : after.fdTables = (sim.lookup r fd).2.fdTables
  owners : after.net.resolve = sim.net.resolve
  objects : after.objects = sim.objects
  next : after.nextObject = sim.nextObject
  rng : after.rng = sim.rng
  memories : after.memories = sim.memories

/-- How a hook ends that parses an address (`parsed` says that it can) and looks `fd` up. -/
inductive Outcome (sim : Sim) (r : ReplicaId) (fd : CInt) (parsed : Prop) :
    HookResult → Sim → Prop where
  | passed : Outcome sim r fd parsed .passthrough sim
  | unparsed (v : U64) (bad : ¬parsed) : Outcome sim r fd parsed (.handled v) sim
  | refused {after : Sim} (v : U64) (good : parsed) (looked : LookedUp sim r fd after) :
      Outcome sim r fd parsed (.handled v) after
  | served {after : Sim} (v : U64) (nonneg : 0 ≤ v.toInt)
      (tables : after.fdTables = (sim.lookup r fd).2.fdTables)
      (next : after.nextObject = sim.nextObject)
      (owners : ∀ a s, after.net.resolve a = some s →
        sim.net.resolve a = some s ∨ (sim.fdTables r).live fd = some s) :
      Outcome sim r fd parsed (.handled v) after

theorem lookup_fst (sim : Sim) (r : ReplicaId) (fd : CInt) :
    (sim.lookup r fd).1 = (sim.fdTables r).live fd :=
  ((sim.fdTables r).get_spec fd).1

theorem lookedUp (sim : Sim) (r : ReplicaId) (fd : CInt) :
    LookedUp sim r fd (sim.lookup r fd).2 := ⟨rfl, rfl, rfl, rfl, rfl, rfl⟩

theorem LookedUp.withNet {sim after : Sim} {r : ReplicaId} {fd : CInt}
    (looked : LookedUp sim r fd after) {net : Net} (same : net.resolve = sim.net.resolve) :
    LookedUp sim r fd { after with net := net } :=
  ⟨looked.tables, same, looked.objects, looked.next, looked.rng, looked.memories⟩

theorem sysWrite_outcome (sim : Sim) (r : ReplicaId) (args : Args) :
    Outcome sim r ((args.get 0).setWidth 32) True (sysWrite sim r args).1
      (sysWrite sim r args).2 := by
  by_cases real : isSimulated ((args.get 0).setWidth 32) = false
  · simp only [sysWrite, if_pos real]
    exact .passed
  · simp only [sysWrite, if_neg real]
    cases (sim.lookup r ((args.get 0).setWidth 32)).1 with
    | none => exact .refused _ trivial (lookedUp sim r _)
    | some s => exact .refused _ trivial (lookedUp sim r _)

theorem sysRead_outcome (sim : Sim) (r : ReplicaId) (args : Args) :
    Outcome sim r ((args.get 0).setWidth 32) True (sysRead sim r args).1
      (sysRead sim r args).2 := by
  by_cases real : isSimulated ((args.get 0).setWidth 32) = false
  · simp only [sysRead, if_pos real]
    exact .passed
  · simp only [sysRead, if_neg real]
    cases (sim.lookup r ((args.get 0).setWidth 32)).1 with
    | none => exact .refused _ trivial (lookedUp sim r _)
    | some s => exact .refused _ trivial (lookedUp sim r _)

/-- The address of a call parses. -/
def Parses (around : Surroundings) (sim : Sim) (r : ReplicaId) (addr len : U64) : Prop :=
  ∃ a, parseAddr (sim.readMemory r) around.stack addr len.toNat = .ok a

/-- A refused bind changes no owner; an accepted one gives the address to its socket. -/
theorem bind_owners (n : Net) (a : Addr) (s : SocketId) :
    ((n.bind a s).1 ≠ 0 → (n.bind a s).2.resolve = n.resolve) ∧
      ∀ b t, (n.bind a s).2.resolve b = some t → n.resolve b = some t ∨ t = s := by
  cases owned : n.resolve a with
  | some p =>
    have same := (Net.bind_refused (s := s) owned).2.1
    exact ⟨fun _ => same, fun b t found => Or.inl (same ▸ found)⟩
  | none =>
    obtain ⟨code, updated, _⟩ := Net.bind_accepted s owned
    refine ⟨fun fails => absurd code fails, ?_⟩
    intro b t found
    rw [updated] at found
    by_cases here : b = a
    · rw [here, Function.update_self, Net.lock, Option.filter_eq_some_iff] at found
      exact Or.inr (Option.some.inj found.1).symm
    · rw [Function.update_of_ne here] at found
      exact Or.inl found

theorem sysBind_outcome (around : Surroundings) (sim : Sim) (r : ReplicaId) (args : Args) :
    Outcome sim r ((args.get 0).setWidth 32) True (sysBind around sim r args).1
      (sysBind around sim r args).2 := by
  by_cases real : isSimulated ((args.get 0).setWidth 32) = false
  · simp only [sysBind, if_pos real]
    exact .passed
  · have looked := lookedUp sim r ((args.get 0).setWidth 32)
    have live := lookup_fst sim r ((args.get 0).setWidth 32)
    simp only [sysBind, if_neg real]
    generalize sim.lookup r ((args.get 0).setWidth 32) = pair at looked live ⊢
    obtain ⟨sock, found⟩ := pair
    cases sock with
    | none => exact .refused _ trivial looked
    | some s =>
      by_cases socket : (found.objects s).isSocket = false
      · simp only [if_pos socket]
        exact .refused _ trivial looked
      · simp only [if_neg socket]
        cases parseAddr (found.readMemory r) around.stack (args.get 1) (args.get 2).toNat with
        | error e => exact .refused _ trivial looked
        | ok addr =>
          obtain ⟨refused, owners⟩ := bind_owners found.net addr s
          by_cases fails : (found.net.bind addr s).1 ≠ 0
          · simp only [if_pos fails]
            exact .refused _ trivial (looked.withNet ((refused fails).trans looked.owners))
          · simp only [if_neg fails]
            refine .served 0 (by decide) looked.tables looked.next ?_
            intro b t owned
            rcases owners b t owned with old | rfl
            · rw [looked.owners] at old
              exact Or.inl old
            · exact Or.inr live.symm

theorem stream_of_asStream {d : Descriptor} {sock : StreamSocket} (h : d.asStream = some sock) :
    d = .stream sock := by
  cases d with
  | stream s => exact congrArg Descriptor.stream (Option.some.inj h)
  | plain => cases h
  | datagram s => cases h

theorem datagram_of_asDatagram {d : Descriptor} {sock : DatagramSocket}
    (h : d.asDatagram = some sock) : d = .datagram sock := by
  cases d with
  | datagram s => exact congrArg Descriptor.datagram (Option.some.inj h)
  | plain => cases h
  | stream s => cases h

theorem setObject_self (sim : Sim) (s : SocketId) : sim.setObject s (sim.objects s) = sim := by
  rw [Sim.setObject, update_eq_self]

/-- A `connect` fails and leaves the socket, or sets its peer and returns zero. -/
theorem connect_cases (sock : StreamSocket) (other : SocketId) (af : AddressFamily) :
    (((sock.connect other af).1.signExtend 64).toInt < 0 ∧ (sock.connect other af).2 = sock ∧
        ¬(sock.listening = false ∧ sock.af = af)) ∨
      ((sock.connect other af).1 = 0 ∧
        (sock.connect other af).2 = { sock with peer := some other } ∧
        sock.listening = false ∧ sock.af = af) := by
  by_cases busy : sock.listening = true
  · have negative : ((failure 32 EOPNOTSUPP).signExtend 64).toInt < 0 := by decide
    rw [StreamSocket.connect, if_pos busy]
    exact Or.inl ⟨negative, rfl, fun idle => absurd (busy.symm.trans idle.1) nofun⟩
  · by_cases foreign : sock.af ≠ af
    · have negative : ((failure 32 EAFNOSUPPORT).signExtend 64).toInt < 0 := by decide
      rw [StreamSocket.connect, if_neg busy, if_pos foreign]
      exact Or.inl ⟨negative, rfl, fun family => foreign family.2⟩
    · rw [StreamSocket.connect, if_neg busy, if_neg foreign]
      exact Or.inr ⟨rfl, rfl, Bool.eq_false_iff.mpr busy, not_not.mp foreign⟩

/-- The stream sockets behind a descriptor and at an address. -/
structure StreamEnds (sim : Sim) (r : ReplicaId) (fd : CInt) (addr : Addr) (s p : SocketId)
    (caller callee : StreamSocket) : Prop where
  opened : (sim.fdTables r).live fd = some s
  isCaller : sim.objects s = .stream caller
  bound : sim.net.resolve addr = some p
  isCallee : sim.objects p = .stream callee

theorem StreamEnds.unique {sim : Sim} {r : ReplicaId} {fd : CInt} {addr : Addr}
    {s p s' p' : SocketId} {caller callee caller' callee' : StreamSocket}
    (first : StreamEnds sim r fd addr s p caller callee)
    (second : StreamEnds sim r fd addr s' p' caller' callee') :
    s = s' ∧ p = p' ∧ caller = caller' ∧ callee = callee' := by
  obtain rfl := Option.some.inj (first.opened.symm.trans second.opened)
  obtain rfl := Option.some.inj (first.bound.symm.trans second.bound)
  exact ⟨rfl, rfl, Descriptor.stream.inj (first.isCaller.symm.trans second.isCaller),
    Descriptor.stream.inj (first.isCallee.symm.trans second.isCallee)⟩

theorem socket_of_stream {d : Descriptor} {sock : StreamSocket} (h : d = .stream sock) :
    d.isSocket = true := by
  rw [h]
  rfl

/-- How a connect ends whose address parses: refused, unless two stream sockets meet of
which the second does not listen, or with what `connect` of the first returns. -/
inductive ConnectOutcome (sim : Sim) (r : ReplicaId) (fd : CInt) (addr : Addr) :
    HookResult → Sim → Prop where
  | refused {after : Sim} (errno : Nat) (negative : (failure 64 errno).toInt < 0)
      (looked : LookedUp sim r fd after)
      (listens : ∀ {s p caller callee}, StreamEnds sim r fd addr s p caller callee →
        callee.listening = true) :
      ConnectOutcome sim r fd addr (failed errno) after
  | called {found : Sim} {s p : SocketId} {caller callee : StreamSocket}
      (ends : StreamEnds sim r fd addr s p caller callee) (quiet : callee.listening = false)
      (looked : LookedUp sim r fd found) :
      ConnectOutcome sim r fd addr (handledInt (caller.connect p callee.af).1)
        (found.setObject s (.stream (caller.connect p callee.af).2))

theorem sysConnect_ends {around : Surroundings} {sim : Sim} {r : ReplicaId} {args : Args}
    {addr : Addr} (real : ¬isSimulated ((args.get 0).setWidth 32) = false)
    (parsed : parseAddr (sim.readMemory r) around.stack (args.get 1) (args.get 2).toNat =
      .ok addr) :
    ConnectOutcome sim r ((args.get 0).setWidth 32) addr (sysConnect around sim r args).1
      (sysConnect around sim r args).2 := by
  have live := lookup_fst sim r ((args.get 0).setWidth 32)
  have looked := lookedUp sim r ((args.get 0).setWidth 32)
  simp only [sysConnect, if_neg real, parsed]
  generalize sim.lookup r ((args.get 0).setWidth 32) = pair at live looked ⊢
  obtain ⟨sock, found⟩ := pair
  have net := looked.withNet ((found.net.get_spec addr).2.1.trans looked.owners)
  have resolved : (found.net.get addr).1 = sim.net.resolve addr :=
    (found.net.get_spec addr).1.trans (congrFun looked.owners addr)
  have objects := looked.objects
  simp only at live objects
  cases sock with
  | none =>
    refine .refused EBADF (by decide) looked ?_
    intro s p caller callee ends
    exact absurd (live.trans ends.opened) nofun
  | some s =>
    by_cases socket : (found.objects s).isSocket = false
    · simp only [if_pos socket]
      refine .refused ENOTSOCK (by decide) looked ?_
      intro s' p caller callee ends
      obtain rfl := Option.some.inj (live.trans ends.opened)
      rw [objects, socket_of_stream ends.isCaller] at socket
      cases socket
    · simp only [if_neg socket]
      rw [resolved]
      cases owner : sim.net.resolve addr with
      | none =>
        refine .refused ECONNREFUSED (by decide) net ?_
        intro s' p caller callee ends
        exact absurd (owner.symm.trans ends.bound) nofun
      | some p =>
        dsimp only
        cases stream : (found.objects s).asStream with
        | none =>
          refine .refused EOPNOTSUPP (by decide) net ?_
          intro s' p' caller callee ends
          obtain rfl := Option.some.inj (live.trans ends.opened)
          rw [objects, ends.isCaller] at stream
          cases stream
        | some s2 =>
          dsimp only
          cases remote : (found.objects p).asStream with
          | none =>
            refine .refused ECONNREFUSED (by decide) net ?_
            intro s' p' caller callee ends
            obtain rfl := Option.some.inj (owner.symm.trans ends.bound)
            rw [objects, ends.isCallee] at remote
            cases remote
          | some peer2 =>
            dsimp only
            rw [objects] at stream remote
            have here : StreamEnds sim r ((args.get 0).setWidth 32) addr s p s2 peer2 :=
              ⟨live.symm, stream_of_asStream stream, owner, stream_of_asStream remote⟩
            by_cases busy : peer2.listening = true
            · simp only [if_pos busy]
              refine .refused ECONNREFUSED (by decide) net ?_
              intro s' p' caller callee ends
              rw [(ends.unique here).2.2.2, busy]
            · simp only [if_neg busy]
              exact .called here (Bool.eq_false_iff.mpr busy) net

theorem sysConnect_outcome (around : Surroundings) (sim : Sim) (r : ReplicaId) (args : Args) :
    Outcome sim r ((args.get 0).setWidth 32) (Parses around sim r (args.get 1) (args.get 2))
      (sysConnect around sim r args).1 (sysConnect around sim r args).2 := by
  by_cases real : isSimulated ((args.get 0).setWidth 32) = false
  · simp only [sysConnect, if_pos real]
    exact .passed
  · cases parsed : parseAddr (sim.readMemory r) around.stack (args.get 1) (args.get 2).toNat with
    | error e =>
      simp only [sysConnect, if_neg real, parsed]
      refine .unparsed _ ?_
      rintro ⟨a, good⟩
      rw [parsed] at good
      cases good
    | ok addr =>
      have good : Parses around sim r (args.get 1) (args.get 2) := ⟨addr, parsed⟩
      have ended := sysConnect_ends real parsed
      generalize (sysConnect around sim r args).1 = result at ended ⊢
      generalize (sysConnect around sim r args).2 = after at ended ⊢
      cases ended with
      | refused errno negative looked => exact .refused _ good looked
      | @called found s p caller callee ends quiet looked =>
        rcases connect_cases caller p callee.af with ⟨-, same, -⟩ | ⟨done, -⟩
        · rw [same, ← ends.isCaller, ← looked.objects, setObject_self]
          exact .refused _ good looked
        · refine .served _ ?_ looked.tables looked.next ?_
          · rw [done]
            decide
          · intro a t owned
            exact Or.inl ((congrFun looked.owners a).symm.trans owned)

theorem sendTo_outcome {around : Surroundings} {sim found after : Sim} {r : ReplicaId}
    {fd : CInt} {buffer bytes : U64} {dst : Addr} {parsed : Prop} {result : HookResult}
    (good : parsed) (looked : LookedUp sim r fd found)
    (returned : sendTo around found r buffer bytes dst = some (result, after)) :
    Outcome sim r fd parsed result after := by
  simp only [sendTo] at returned
  generalize ChildMemory.readMemory (found.memories r) buffer (List.replicate bytes.toNat 0) =
    read at returned
  generalize (if read.1.toInt < 0 then Except.error read.1 else Except.ok read.2) = readData
    at returned
  have owners : (found.world.sendTo dst readData).2.net.resolve = found.net.resolve := by
    rw [world_sendTo]
    exact (found.net.get_spec dst).2.1
  have net := looked.withNet (owners.trans looked.owners)
  cases target : (found.world.sendTo dst readData).1 with
  | error res =>
    rw [target] at returned
    obtain ⟨rfl, rfl⟩ := Prod.mk.inj (Option.some.inj returned)
    exact .refused _ good net
  | ok pair =>
    obtain ⟨s, buf⟩ := pair
    rw [target] at returned
    dsimp only at returned
    by_cases large : 2 ^ 63 ≤ bytes.toNat
    · rw [if_pos large] at returned
      cases returned
    · rw [if_neg large] at returned
      cases kind : (found.objects s).asDatagram with
      | none =>
        rw [kind] at returned
        cases returned
      | some sock =>
        rw [kind] at returned
        dsimp only at returned
        cases sent : sock.inbound.send around.host around.fuel around.now buf default with
        | none =>
          rw [sent] at returned
          cases returned
        | some pair =>
          rw [sent] at returned
          obtain ⟨rfl, rfl⟩ := Prod.mk.inj (Option.some.inj returned)
          refine .served _ ?_ net.tables net.next ?_
          · rw [BitVec.toInt_eq_toNat_cond, if_pos (by omega)]
            omega
          · intro a t owned
            exact Or.inl ((congrFun net.owners a).symm.trans owned)

theorem sysSendto_outcome {around : Surroundings} {sim after : Sim} {r : ReplicaId} {args : Args}
    {result : HookResult} (returned : sysSendto around sim r args = some (result, after)) :
    Outcome sim r ((args.get 0).setWidth 32) (Parses around sim r (args.get 4) (args.get 5)) result
      after := by
  by_cases real : isSimulated ((args.get 0).setWidth 32) = false
  · simp only [sysSendto, if_pos real] at returned
    obtain ⟨rfl, rfl⟩ := Prod.mk.inj (Option.some.inj returned)
    exact .passed
  · have looked := lookedUp sim r ((args.get 0).setWidth 32)
    cases parsed : parseAddr (sim.readMemory r) around.stack (args.get 4) (args.get 5).toNat with
    | error e =>
      simp only [sysSendto, if_neg real, parsed] at returned
      obtain ⟨rfl, rfl⟩ := Prod.mk.inj (Option.some.inj returned)
      refine .unparsed _ ?_
      rintro ⟨a, good⟩
      rw [parsed] at good
      cases good
    | ok dst =>
      have good : Parses around sim r (args.get 4) (args.get 5) := ⟨dst, parsed⟩
      simp only [sysSendto, if_neg real, parsed] at returned
      generalize sim.lookup r ((args.get 0).setWidth 32) = pair at looked returned
      obtain ⟨fd, found⟩ := pair
      cases fd with
      | none =>
        obtain ⟨rfl, rfl⟩ := Prod.mk.inj (Option.some.inj returned)
        exact .refused _ good looked
      | some s =>
        dsimp only at returned
        cases kind : (found.objects s).asDatagram with
        | none =>
          rw [kind] at returned
          obtain ⟨rfl, rfl⟩ := Prod.mk.inj (Option.some.inj returned)
          exact .refused _ good looked
        | some sock =>
          rw [kind] at returned
          exact sendTo_outcome good looked returned

/-! ## Every reachable state -/

/-- All numbers in use or on the free list are non-negative. -/
def NonNeg (t : Table SocketId) : Prop :=
  ∀ fd, fd ∈ t.unused ∨ (t.live fd).isSome → 0 ≤ fd.toInt

structure WellFormed (sim : Sim) : Prop where
  numbers : ∀ r, NonNeg (sim.fdTables r)
  opened : ∀ r fd s, (sim.fdTables r).live fd = some s → s < sim.nextObject
  bound : ∀ a s, sim.net.resolve a = some s → s < sim.nextObject

theorem wellFormed_start (seed : U64) (netFaults : FaultSampling.FaultOptions)
    (memories : ReplicaId → ChildMemory.Memory) :
    WellFormed (Sim.start seed netFaults memories) where
  numbers := by
    rintro r fd (free | used)
    · cases free
    · cases used
  opened := by
    intro r fd s live
    cases live
  bound := by
    intro a s owned
    cases owned

theorem nonNeg_get {t : Table SocketId} (numbers : NonNeg t) (fd : CInt) :
    NonNeg (t.get fd).2 := by
  obtain ⟨_, live, unused, _⟩ := t.get_spec fd
  intro a used
  rw [live, unused] at used
  exact numbers a used

/-- What a close leaves: the same table, or one slot fewer. -/
theorem close_cases (t : Table SocketId) (fd : CInt) :
    (t.live fd = none ∧ t.close fd = (failure 32 EBADFD, t)) ∨
      ∃ s, t.live fd = some s ∧
        t.close fd = (0, ⟨t.table.erase fd, t.unused ++ [fd]⟩) := by
  cases used : t.live fd with
  | none =>
    refine Or.inl ⟨rfl, ?_⟩
    simp only [Table.close, used]
  | some s =>
    refine Or.inr ⟨s, rfl, ?_⟩
    simp only [Table.close, used]

/-- A close opens nothing. -/
theorem live_close {t : Table SocketId} {fd a : CInt} {s : SocketId}
    (live : (t.close fd).2.live a = some s) : t.live a = some s := by
  rcases close_cases t fd with ⟨_, same⟩ | ⟨_, _, closed⟩
  · rwa [same] at live
  · rw [closed] at live
    by_cases here : a = fd
    · rw [here, Table.live_erase_self] at live
      cases live
    · rwa [Table.live_erase_ne here] at live

theorem nonNeg_close {t : Table SocketId} (numbers : NonNeg t) (fd : CInt) :
    NonNeg (t.close fd).2 := by
  rcases close_cases t fd with ⟨_, same⟩ | ⟨s, used, closed⟩
  · rw [same]
    exact numbers
  · intro a h
    rcases h with free | live
    · rw [closed] at free
      rcases List.mem_append.mp free with old | now
      · exact numbers a (Or.inl old)
      · rw [List.mem_singleton.mp now]
        exact numbers fd (Or.inr (Option.isSome_iff_exists.mpr ⟨s, used⟩))
    · obtain ⟨d, found⟩ := Option.isSome_iff_exists.mp live
      exact numbers a (Or.inr (Option.isSome_iff_exists.mpr ⟨d, live_close found⟩))

/-- An insert refuses only a full table with an empty free list, and else opens the one
number it returns. -/
theorem insert_outcome {t : Table SocketId} (numbers : NonNeg t) (s : SocketId) :
    (t.insert (some s) = (-1, t) ∧ t.unused = [] ∧ capacity ≤ t.size) ∨
      (0 ≤ (t.insert (some s)).1.toInt ∧ NonNeg (t.insert (some s)).2 ∧
        ∀ a d, (t.insert (some s)).2.live a = some d → d = s ∨ t.live a = some d) := by
  have grown : ∀ (fd : CInt) (rest : List CInt), 0 ≤ fd.toInt → (∀ a ∈ rest, a ∈ t.unused) →
      NonNeg ⟨t.table.insert fd (some s), rest⟩ ∧
        ∀ a d, (Table.mk (t.table.insert fd (some s)) rest).live a = some d →
          d = s ∨ t.live a = some d := by
    intro fd rest nonneg fewer
    have lives : ∀ a d, (Table.mk (t.table.insert fd (some s)) rest).live a = some d →
        a = fd ∧ d = s ∨ t.live a = some d := by
      intro a d live
      by_cases here : a = fd
      · rw [here, Table.live_insert_self] at live
        exact Or.inl ⟨here, (Option.some.inj live).symm⟩
      · rw [Table.live_insert_ne here] at live
        exact Or.inr live
    refine ⟨?_, fun a d live => (lives a d live).imp_left And.right⟩
    rintro a (free | live)
    · exact numbers a (Or.inl (fewer a free))
    · obtain ⟨d, found⟩ := Option.isSome_iff_exists.mp live
      rcases lives a d found with ⟨rfl, _⟩ | old
      · exact nonneg
      · exact numbers a (Or.inr (Option.isSome_iff_exists.mpr ⟨d, old⟩))
  rcases t.insert_cases (some s) with ⟨fd, rest, free, result⟩ | ⟨drained, full, result⟩ |
    ⟨drained, room, result⟩
  · have member : fd ∈ t.unused := by
      rw [free]
      exact List.mem_append_right _ (List.mem_singleton_self fd)
    have nonneg := numbers fd (Or.inl member)
    rw [result]
    refine Or.inr ⟨nonneg, grown fd rest nonneg ?_⟩
    intro a h
    rw [free]
    exact List.mem_append_left _ h
  · exact Or.inl ⟨result, drained, full⟩
  · have nonneg := simulatedFd_nonneg room
    rw [result]
    refine Or.inr ⟨nonneg, grown _ [] nonneg ?_⟩
    intro a h
    cases h

/-- One replica's table changed, nothing was made, and owners come from before or from
that table. -/
theorem WellFormed.of_table {sim after : Sim} {r : ReplicaId} {table : Table SocketId}
    (wf : WellFormed sim) (tables : after.fdTables = update sim.fdTables r table)
    (numbers : NonNeg table)
    (opened : ∀ fd s, table.live fd = some s → (sim.fdTables r).live fd = some s)
    (next : after.nextObject = sim.nextObject)
    (owners : ∀ a s, after.net.resolve a = some s →
      sim.net.resolve a = some s ∨ ∃ fd, (sim.fdTables r).live fd = some s) :
    WellFormed after := by
  refine ⟨?_, ?_, ?_⟩
  · intro q
    rw [tables]
    by_cases here : q = r
    · rw [here, update_self]
      exact numbers
    · rw [update_of_ne here]
      exact wf.numbers q
  · intro q fd s live
    rw [tables] at live
    rw [next]
    by_cases here : q = r
    · rw [here, update_self] at live
      exact wf.opened r fd s (opened fd s live)
    · rw [update_of_ne here] at live
      exact wf.opened q fd s live
  · intro a s owned
    rw [next]
    rcases owners a s owned with old | ⟨fd, live⟩
    · exact wf.bound a s old
    · exact wf.opened r fd s live

theorem WellFormed.of_lookup {sim after : Sim} {r : ReplicaId} {fd : CInt}
    (wf : WellFormed sim) (tables : after.fdTables = (sim.lookup r fd).2.fdTables)
    (next : after.nextObject = sim.nextObject)
    (owners : ∀ a s, after.net.resolve a = some s →
      sim.net.resolve a = some s ∨ (sim.fdTables r).live fd = some s) : WellFormed after := by
  have updated : after.fdTables = update sim.fdTables r ((sim.fdTables r).get fd).2 := tables
  refine wf.of_table updated (nonNeg_get (wf.numbers r) fd) ?_ next ?_
  · intro a s live
    rwa [((sim.fdTables r).get_spec fd).2.1] at live
  · intro a s owned
    exact (owners a s owned).imp_right fun live => ⟨fd, live⟩

theorem LookedUp.wellFormed {sim after : Sim} {r : ReplicaId} {fd : CInt}
    (looked : LookedUp sim r fd after) (wf : WellFormed sim) : WellFormed after := by
  refine wf.of_lookup looked.tables looked.next ?_
  intro a s owned
  rw [looked.owners] at owned
  exact Or.inl owned

theorem Outcome.wellFormed {sim after : Sim} {r : ReplicaId} {fd : CInt} {parsed : Prop}
    {result : HookResult} (outcome : Outcome sim r fd parsed result after)
    (wf : WellFormed sim) : WellFormed after := by
  cases outcome with
  | passed => exact wf
  | unparsed v bad => exact wf
  | refused v good looked => exact looked.wellFormed wf
  | served v nonneg tables next owners => exact wf.of_lookup tables next owners

/-- Destroying an object takes owners away and adds none. -/
theorem WellFormed.release {sim : Sim} (wf : WellFormed sim) (s : SocketId) :
    WellFormed (sim.release s) := by
  refine ⟨wf.numbers, wf.opened, ?_⟩
  intro a t owned
  rw [Sim.release, Net.destroy_spec, Option.filter_eq_some_iff] at owned
  exact wf.bound a t owned.1

theorem wellFormed_close {sim : Sim} (wf : WellFormed sim) (r : ReplicaId) (args : Args) :
    WellFormed (sysClose sim r args).2 := by
  by_cases real : isSimulated ((args.get 0).setWidth 32) = false
  · simp only [sysClose, if_pos real]
    exact wf
  · have closed : WellFormed { sim with
        fdTables := update sim.fdTables r ((sim.fdTables r).close ((args.get 0).setWidth 32)).2 } :=
      wf.of_table rfl (nonNeg_close (wf.numbers r) _) (fun _ _ live => live_close live) rfl
        (fun _ _ owned => Or.inl owned)
    simp only [sysClose, if_neg real]
    cases (sim.fdTables r).live ((args.get 0).setWidth 32) with
    | none => exact closed
    | some s => exact closed.release s

/-- `makeSocket` makes one object, whatever the type. -/
theorem makeSocket_made {sim made : Sim} {af : AddressFamily} {type : CInt} {sock : SocketId}
    (h : makeSocket sim af type = some (sock, made)) :
    sock = sim.nextObject ∧ made.nextObject = sim.nextObject + 1 ∧
      made.fdTables = sim.fdTables ∧ made.net = sim.net ∧
      (∀ s < sim.nextObject, made.objects s = sim.objects s) ∧
      made.rng = if type = SOCK_DGRAM then Generators.Xoshiro.advance^[4] sim.rng
        else sim.rng := by
  have older : ∀ (d : Descriptor), ∀ s < sim.nextObject,
      update sim.objects sim.nextObject d s = sim.objects s := by
    intro d s older
    exact update_of_ne (Nat.ne_of_lt older) d sim.objects
  by_cases stream : type = SOCK_STREAM
  · rw [makeSocket, if_pos stream] at h
    obtain ⟨rfl, rfl⟩ := Prod.mk.inj (Option.some.inj h)
    refine ⟨rfl, rfl, rfl, rfl, older _, ?_⟩
    rw [stream, if_neg (by decide)]
  · by_cases datagram : type = SOCK_DGRAM
    · rw [makeSocket, if_neg stream, if_pos datagram] at h
      obtain ⟨rfl, rfl⟩ := Prod.mk.inj (Option.some.inj h)
      refine ⟨rfl, rfl, rfl, rfl, older _, ?_⟩
      rw [if_pos datagram]
      rfl
    · rw [makeSocket, if_neg stream, if_neg datagram] at h
      cases h

/-- The sign bit of an `int` is kept in the register. -/
theorem handledInt_toInt (fd : CInt) : (fd.signExtend 64).toInt = fd.toInt :=
  BitVec.toInt_signExtend_of_le (by decide)

/-- How `sys_socket` ends: with nothing made, with an object that no number was left for,
or with a new descriptor. -/
theorem sysSocket_cases {sim after : Sim} {r : ReplicaId} {args : Args} {result : HookResult}
    (numbers : NonNeg (sim.fdTables r)) (ran : sysSocket sim r args = (result, after)) :
    (result = failed EINVAL ∧ after = sim ∧ ∀ af, family ((args.get 0).setWidth 32) = some af →
        makeSocket sim af ((args.get 1).setWidth 32) = none) ∨
      ∃ af sock made, family ((args.get 0).setWidth 32) = some af ∧
        makeSocket sim af ((args.get 1).setWidth 32) = some (sock, made) ∧
        ((result = failed EMFILE ∧ after = made.release sock ∧
            (sim.fdTables r).unused = [] ∧ capacity ≤ (sim.fdTables r).size) ∨
          ∃ fd table, (sim.fdTables r).insert (some sock) = (fd, table) ∧ 0 ≤ fd.toInt ∧
            result = handledInt fd ∧
            after.fdTables = update sim.fdTables r table ∧
            after.nextObject = made.nextObject ∧
            ∀ a s, after.net.resolve a = some s → sim.net.resolve a = some s) := by
  cases known : family ((args.get 0).setWidth 32) with
  | none =>
    simp only [sysSocket, known, Prod.mk.injEq] at ran
    refine Or.inl ⟨ran.1.symm, ran.2.symm, ?_⟩
    intro af impossible
    cases impossible
  | some af =>
    cases making : makeSocket sim af ((args.get 1).setWidth 32) with
    | none =>
      simp only [sysSocket, known, making, Prod.mk.injEq] at ran
      refine Or.inl ⟨ran.1.symm, ran.2.symm, ?_⟩
      intro af' same
      rw [← Option.some.inj same]
      exact making
    | some pair =>
      obtain ⟨sock, made⟩ := pair
      obtain ⟨-, -, tables, net, -, -⟩ := makeSocket_made making
      refine Or.inr ⟨af, sock, made, rfl, making, ?_⟩
      simp only [sysSocket, known, making, tables] at ran
      rcases insert_outcome numbers sock with ⟨refused, drained, full⟩ | ⟨nonneg, -, -⟩
      · rw [refused] at ran
        simp only [if_pos (show (-1 : CInt).toInt < 0 by decide), update_eq_self,
          Prod.mk.injEq] at ran
        refine Or.inl ⟨ran.1.symm, ?_, drained, full⟩
        rw [← ran.2, ← tables]
      · refine Or.inr ⟨((sim.fdTables r).insert (some sock)).1,
          ((sim.fdTables r).insert (some sock)).2, rfl, nonneg, ?_⟩
        simp only [if_neg (Int.not_lt.mpr nonneg)] at ran
        cases slot : (sim.fdTables r).live ((sim.fdTables r).insert (some sock)).1 with
        | none =>
          simp only [slot, Prod.mk.injEq] at ran
          obtain ⟨rfl, rfl⟩ := ran
          refine ⟨rfl, rfl, rfl, ?_⟩
          intro a s owned
          rwa [net] at owned
        | some old =>
          simp only [slot, Prod.mk.injEq] at ran
          obtain ⟨rfl, rfl⟩ := ran
          refine ⟨rfl, rfl, rfl, ?_⟩
          intro a s owned
          rw [Sim.release, Net.destroy_spec, Option.filter_eq_some_iff, net] at owned
          exact owned.1

theorem wellFormed_socket {sim after : Sim} {r : ReplicaId} {args : Args} {result : HookResult}
    (wf : WellFormed sim) (ran : sysSocket sim r args = (result, after)) :
    WellFormed after := by
  rcases sysSocket_cases (wf.numbers r) ran with ⟨-, same, -⟩ |
    ⟨af, sock, made, -, making, refused | served⟩
  · rw [same]
    exact wf
  · obtain ⟨-, next, tables, net, -, -⟩ := makeSocket_made making
    have grown : WellFormed made := by
      refine ⟨?_, ?_, ?_⟩
      · rw [tables]
        exact wf.numbers
      · rw [tables, next]
        exact fun q fd s live => Nat.lt_succ_of_lt (wf.opened q fd s live)
      · rw [net, next]
        exact fun a s owned => Nat.lt_succ_of_lt (wf.bound a s owned)
    rw [refused.2.1]
    exact grown.release sock
  · obtain ⟨identity, next, -, -, -, -⟩ := makeSocket_made making
    obtain ⟨fd, table, inserted, nonneg, -, tables, counted, owners⟩ := served
    have outcome := insert_outcome (wf.numbers r) sock
    rw [inserted] at outcome
    rcases outcome with ⟨refused, -, -⟩ | ⟨-, numbers, opened⟩
    · rw [(Prod.mk.inj refused).1] at nonneg
      exact absurd nonneg refused_negative
    refine ⟨?_, ?_, ?_⟩
    · intro q
      rw [tables]
      by_cases here : q = r
      · rw [here, update_self]
        exact numbers
      · rw [update_of_ne here]
        exact wf.numbers q
    · intro q a s live
      rw [counted, next]
      rw [tables] at live
      by_cases here : q = r
      · rw [here, update_self] at live
        rcases opened a s live with rfl | old
        · rw [identity]
          exact Nat.lt_succ_self _
        · exact Nat.lt_succ_of_lt (wf.opened r a s old)
      · rw [update_of_ne here] at live
        exact Nat.lt_succ_of_lt (wf.opened q a s live)
    · intro a s owned
      rw [counted, next]
      exact Nat.lt_succ_of_lt (wf.bound a s (owners a s owned))

/-- With an open datagram socket a `sys_recvfrom` waits at its pipe. -/
theorem sysRecvfrom_eq {sim : Sim} {r : ReplicaId} {args : Args} {s : SocketId}
    {sock : DatagramSocket} (simulated : isSimulated ((args.get 0).setWidth 32) = true)
    (opened : (sim.fdTables r).live ((args.get 0).setWidth 32) = some s)
    (datagram : sim.objects s = .datagram sock) :
    sysRecvfrom sim r args =
      (.ok (s, sock), (sim.lookup r ((args.get 0).setWidth 32)).2) := by
  have found : (sim.lookup r ((args.get 0).setWidth 32)).1 = some s :=
    (lookup_fst sim r _).trans opened
  have kind : ((sim.lookup r ((args.get 0).setWidth 32)).2.objects s).asDatagram = some sock :=
    congrArg Descriptor.asDatagram datagram
  have real : ¬isSimulated ((args.get 0).setWidth 32) = false := by
    rw [simulated]
    decide
  simp only [sysRecvfrom, if_neg real, found, kind]

/-- A `sys_recvfrom` looks its descriptor up before anything else. -/
theorem sysRecvfrom_looked (sim : Sim) (r : ReplicaId) (args : Args) :
    (sysRecvfrom sim r args).2 = sim ∨
      LookedUp sim r ((args.get 0).setWidth 32) (sysRecvfrom sim r args).2 := by
  by_cases real : isSimulated ((args.get 0).setWidth 32) = false
  · simp only [sysRecvfrom, if_pos real]
    exact Or.inl trivial
  · refine Or.inr ?_
    simp only [sysRecvfrom, if_neg real]
    cases (sim.lookup r ((args.get 0).setWidth 32)).1 with
    | none => exact lookedUp sim r _
    | some s =>
      dsimp only
      cases (((sim.lookup r ((args.get 0).setWidth 32)).2.objects s).asDatagram) with
      | none => exact lookedUp sim r _
      | some sock => exact lookedUp sim r _

theorem wellFormed_recvfrom {sim : Sim} (wf : WellFormed sim) (r : ReplicaId) (args : Args) :
    WellFormed (sysRecvfrom sim r args).2 := by
  rcases sysRecvfrom_looked sim r args with same | looked
  · rw [same]
    exact wf
  · exact looked.wellFormed wf

theorem wellFormed_step {sim after : Sim} {e : SysEvent} (taken : SysStep sim e after)
    (wf : WellFormed sim) : WellFormed after := by
  cases e with
  | call r call args result =>
    obtain ⟨around, ran⟩ := taken
    cases call with
    | read =>
      obtain ⟨rfl, rfl⟩ := Prod.mk.inj (Option.some.inj ran)
      exact (sysRead_outcome sim r args).wellFormed wf
    | write =>
      obtain ⟨rfl, rfl⟩ := Prod.mk.inj (Option.some.inj ran)
      exact (sysWrite_outcome sim r args).wellFormed wf
    | close =>
      obtain ⟨rfl, rfl⟩ := Prod.mk.inj (Option.some.inj ran)
      exact wellFormed_close wf r args
    | socket => exact wellFormed_socket wf (Option.some.inj ran)
    | sendto => exact (sysSendto_outcome ran).wellFormed wf
    | connect =>
      obtain ⟨rfl, rfl⟩ := Prod.mk.inj (Option.some.inj ran)
      exact (sysConnect_outcome around sim r args).wellFormed wf
    | bind =>
      obtain ⟨rfl, rfl⟩ := Prod.mk.inj (Option.some.inj ran)
      exact (sysBind_outcome around sim r args).wellFormed wf
  | recvfrom r args p result =>
    obtain ⟨now, s, sock, found, looked, -, -, done⟩ := taken
    have kept := wellFormed_recvfrom wf r args
    rw [looked] at kept
    obtain ⟨rfl, rfl⟩ := Prod.mk.inj done
    exact ⟨kept.numbers, kept.opened, kept.bound⟩
  | recvfromFailed r args result =>
    have kept := wellFormed_recvfrom wf r args
    rw [show sysRecvfrom sim r args = (.error result, after) from taken] at kept
    exact kept
  | compute r memory =>
    rw [show after = _ from taken]
    exact ⟨wf.numbers, wf.opened, wf.bound⟩

theorem wellFormed_path {sim after : Sim} {past : List SysEvent} (wf : WellFormed sim)
    (path : Path SysStep sim past after) : WellFormed after :=
  history_invariant (fun _ s => WellFormed s) wf
    (fun _ _ _ _ kept taken => wellFormed_step taken kept) path

end HookOutcomes
