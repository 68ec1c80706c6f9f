import Redstone.HookOutcomes

/-!
# What a step of the system changes

Every step does one of nine things, and each of them is listed with all that it changes.
What holds in every run is read off this list.
-/

namespace HookEffects

open MachineWords Generators SocketAddr Network DatagramPipe FdTable ParseAddr
open TraceLoop (Args HookResult)
open SocketSeeds (ReplicaId AddressFamily family SOCK_STREAM SOCK_DGRAM)
open ChildMemory (Memory)
open Syscalls HookOutcomes Function

/-- The replica that makes the step. -/
def caller : SysEvent → ReplicaId
  | .call r _ _ _ => r
  | .recvfrom r _ _ _ => r
  | .recvfromFailed r _ _ => r
  | .compute r _ => r

def argsOf : SysEvent → Args
  | .call _ _ args _ => args
  | .recvfrom _ args _ _ => args
  | .recvfromFailed _ args _ => args
  | .compute _ _ => Vector.replicate 6 0

/-- The number in the first argument. -/
def fdOf (e : SysEvent) : CInt := ((argsOf e).get 0).setWidth 32

/-- The table of the replica that makes the step. -/
def tableOf (sim : Sim) (e : SysEvent) : Table SocketId := sim.fdTables (caller e)

/-- A new object as its constructor leaves it, and the simulator's generator after it. -/
inductive New (sim : Sim) : Descriptor → Xoshiro → Prop where
  | stream (af : AddressFamily) : New sim (.stream ⟨af, none, false⟩) sim.rng
  | datagram (af : AddressFamily) :
      New sim (.datagram ⟨af, opened sim.netFaults (seedFrom Xoshiro.next sim.rng).1⟩)
        (seedFrom Xoshiro.next sim.rng).2

def constructed (sim : Sim) (d : Descriptor) (rng : Xoshiro) : Sim :=
  { (sim.construct d).2 with rng }

/-- What changes only when an object goes away, and what never does. -/
structure Steady (sim after : Sim) : Prop where
  destroyed : after.net.destroyed = sim.net.destroyed
  netFaults : after.netFaults = sim.netFaults

/-- A step looked its descriptor up and changed nothing else. -/
structure Looked (sim : Sim) (e : SysEvent) (after : Sim) : Prop where
  looked : LookedUp sim (caller e) (fdOf e) after
  steady : Steady sim after

/-- The descriptor in the first argument is open and belongs to `s`. -/
def Opened (sim : Sim) (e : SysEvent) (s : SocketId) : Prop :=
  (tableOf sim e).live (fdOf e) = some s

/-- The pointer that an insert overwrites was the last one to its object. -/
def overwritten (sim : Sim) (e : SysEvent) (fd : CInt) : Net :=
  match (tableOf sim e).live fd with
  | none => sim.net
  | some old => sim.net.destroy old

inductive Effect (admits : FaultSampling.Host → Prop) (sim : Sim) (e : SysEvent) (after : Sim) :
    Prop where
  | idle (same : after = sim)
  | looked (looked : Looked sim e after)
  | closed {s : SocketId} (opened : Opened sim e s)
      (same : after = Sim.release { sim with
        fdTables := update sim.fdTables (caller e) ((tableOf sim e).close (fdOf e)).2 } s)
  | unopened {d : Descriptor} {rng : Xoshiro} (new : New sim d rng)
      (same : after = (constructed sim d rng).release sim.nextObject)
  | made {d : Descriptor} {rng : Xoshiro} {fd : CInt} {table : Table SocketId}
      (new : New sim d rng)
      (inserted : (tableOf sim e).insert (some sim.nextObject) = (fd, table))
      (nonneg : 0 ≤ fd.toInt)
      (same : after = { constructed sim d rng with
        fdTables := update sim.fdTables (caller e) table, net := overwritten sim e fd })
  | bound {found : Sim} {s : SocketId} {a : Addr} {around : Surroundings}
      (event : e = .call (caller e) .bind (argsOf e) (.handled 0)) (opened : Opened sim e s)
      (socket : (sim.objects s).isSocket = true)
      (parsed : parseAddr (sim.readMemory (caller e)) around.stack ((argsOf e).get 1)
        ((argsOf e).get 2).toNat = .ok a) (free : sim.net.resolve a = none)
      (looked : Looked sim e found) (same : after = { found with net := (found.net.bind a s).2 })
  | connected {found : Sim} {s p : SocketId} {a : Addr} {near far : StreamSocket}
      {around : Surroundings}
      (event : e = .call (caller e) .connect (argsOf e) (.handled 0))
      (parsed : parseAddr (sim.readMemory (caller e)) around.stack ((argsOf e).get 1)
        ((argsOf e).get 2).toNat = .ok a)
      (ends : StreamEnds sim (caller e) (fdOf e) a s p near far)
      (quiet : near.listening = false ∧ far.listening = false) (family : near.af = far.af)
      (looked : Looked sim e found)
      (same : after = found.setObject s (.stream { near with peer := some p }))
  | sent {found : Sim} {t s : SocketId} {own sock : DatagramSocket} {dst : Addr} {fate : Fate}
      {pipe : Pipe} {around : Surroundings}
      (admitted : admits around.host)
      (event : e = .call (caller e) .sendto (argsOf e) (.handled ((argsOf e).get 2)))
      (opened : Opened sim e t) (datagram : sim.objects t = .datagram own)
      (parsed : parseAddr (sim.readMemory (caller e)) around.stack ((argsOf e).get 4)
        ((argsOf e).get 5).toNat = .ok dst)
      (owner : sim.net.resolve dst = some s) (target : sim.objects s = .datagram sock)
      (drawn : sock.inbound.send around.host around.fuel around.now
        (ChildMemory.readMemory (sim.memories (caller e)) ((argsOf e).get 1)
          (List.replicate ((argsOf e).get 2).toNat 0)).2 default = some (fate, pipe))
      (looked : Looked sim e found)
      (same : after = found.setObject s (.datagram { sock with inbound := pipe }))
  | received {found : Sim} {s : SocketId} {sock : DatagramSocket} {p : Packet}
      {result : HookResult} {memory : Memory} {now : I64}
      (event : e = .recvfrom (caller e) (argsOf e) p result)
      (opened : Opened sim e s) (datagram : sim.objects s = .datagram sock)
      (top : sock.inbound.IsTop p) (ready : ¬now.toInt < p.arrival.toInt)
      (looked : Looked sim e found)
      (same : after = { found.setObject s (.datagram (sock.pop p)) with
        memories := update sim.memories (caller e) memory })
  | computed {memory : Memory}
      (same : after = { sim with memories := update sim.memories (caller e) memory })

theorem Steady.refl (sim : Sim) : Steady sim sim := ⟨rfl, rfl⟩

theorem looked_lookup (sim : Sim) (e : SysEvent) :
    Looked sim e (sim.lookup (caller e) (fdOf e)).2 := ⟨lookedUp sim _ _, rfl, rfl⟩

/-- A lookup in the network on top. -/
theorem Looked.get {sim found : Sim} {e : SysEvent} (looked : Looked sim e found) (a : Addr) :
    Looked sim e { found with net := (found.net.get a).2 } := by
  obtain ⟨-, owners, destroyed⟩ := found.net.get_spec a
  exact ⟨looked.looked.withNet (owners.trans looked.looked.owners),
    destroyed.trans looked.steady.destroyed, looked.steady.netFaults⟩

/-! ## The hooks one by one -/

section Calls
variable {admits : FaultSampling.Host → Prop}
variable {sim after : Sim} {r : ReplicaId} {args : Args} {result : HookResult}

theorem read_effect (sim : Sim) (r : ReplicaId) (args : Args) :
    Effect admits sim (.call r .read args (sysRead sim r args).1) (sysRead sim r args).2 := by
  by_cases real : isSimulated ((args.get 0).setWidth 32) = false
  · simp only [sysRead, if_pos real]
    exact .idle rfl
  · simp only [sysRead, if_neg real]
    split <;> exact .looked (looked_lookup sim _)

theorem write_effect (sim : Sim) (r : ReplicaId) (args : Args) :
    Effect admits sim (.call r .write args (sysWrite sim r args).1) (sysWrite sim r args).2 := by
  by_cases real : isSimulated ((args.get 0).setWidth 32) = false
  · simp only [sysWrite, if_pos real]
    exact .idle rfl
  · simp only [sysWrite, if_neg real]
    split <;> exact .looked (looked_lookup sim _)

theorem close_effect (sim : Sim) (r : ReplicaId) (args : Args) :
    Effect admits sim (.call r .close args (sysClose sim r args).1) (sysClose sim r args).2 := by
  by_cases real : isSimulated ((args.get 0).setWidth 32) = false
  · simp only [sysClose, if_pos real]
    exact .idle rfl
  · simp only [sysClose, if_neg real]
    rcases close_cases (sim.fdTables r) ((args.get 0).setWidth 32) with ⟨closed, same⟩ |
      ⟨s, live, -⟩
    · simp only [closed, same, update_eq_self]
      exact .idle rfl
    · simp only [live]
      exact .closed live rfl

theorem makeSocket_new {made : Sim} {af : AddressFamily} {type : CInt} {sock : SocketId}
    (h : makeSocket sim af type = some (sock, made)) :
    sock = sim.nextObject ∧ ∃ d rng, New sim d rng ∧ made = constructed sim d rng := by
  by_cases stream : type = SOCK_STREAM
  · rw [makeSocket, if_pos stream] at h
    obtain ⟨rfl, rfl⟩ := Prod.mk.inj (Option.some.inj h)
    exact ⟨rfl, _, _, .stream af, rfl⟩
  · by_cases datagram : type = SOCK_DGRAM
    · rw [makeSocket, if_neg stream, if_pos datagram] at h
      obtain ⟨rfl, rfl⟩ := Prod.mk.inj (Option.some.inj h)
      exact ⟨rfl, _, _, .datagram af, rfl⟩
    · rw [makeSocket, if_neg stream, if_neg datagram] at h
      cases h

theorem socket_effect (numbers : NonNeg (sim.fdTables r))
    (ran : sysSocket sim r args = (result, after)) :
    Effect admits sim (.call r .socket args result) after := by
  cases known : family ((args.get 0).setWidth 32) with
  | none =>
    simp only [sysSocket, known, Prod.mk.injEq] at ran
    exact .idle ran.2.symm
  | some af =>
    cases making : makeSocket sim af ((args.get 1).setWidth 32) with
    | none =>
      simp only [sysSocket, known, making, Prod.mk.injEq] at ran
      exact .idle ran.2.symm
    | some pair =>
      obtain ⟨sock, made⟩ := pair
      obtain ⟨rfl, d, rng, new, rfl⟩ := makeSocket_new making
      have tables : (constructed sim d rng).fdTables = sim.fdTables := rfl
      simp only [sysSocket, known, making, tables] at ran
      have outcome := insert_outcome numbers sim.nextObject
      cases inserted : (sim.fdTables r).insert (some sim.nextObject) with
      | mk fd table =>
      rw [inserted] at outcome
      simp only [inserted] at ran
      rcases outcome with ⟨refused, -, -⟩ | ⟨nonneg, -, -⟩
      · obtain ⟨rfl, rfl⟩ := Prod.mk.inj refused
        simp only [if_pos (show (-1 : CInt).toInt < 0 by decide), update_eq_self,
          Prod.mk.injEq] at ran
        exact .unopened new ran.2.symm
      · simp only [if_neg (Int.not_lt.mpr nonneg)] at ran
        refine .made new inserted nonneg ?_
        simp only [overwritten, tableOf, caller]
        cases slot : (sim.fdTables r).live fd with
        | none =>
          simp only [slot, Prod.mk.injEq] at ran
          exact ran.2.symm
        | some old =>
          simp only [slot, Prod.mk.injEq] at ran
          exact ran.2.symm

theorem bind_effect {around : Surroundings} (ran : sysBind around sim r args = (result, after)) :
    Effect admits sim (.call r .bind args result) after := by
  by_cases real : isSimulated ((args.get 0).setWidth 32) = false
  · simp only [sysBind, if_pos real, Prod.mk.injEq] at ran
    exact .idle ran.2.symm
  · have looked := looked_lookup sim (.call r .bind args result)
    have live := lookup_fst sim r ((args.get 0).setWidth 32)
    simp only [caller, fdOf, argsOf] at looked
    simp only [sysBind, if_neg real] at ran
    generalize sim.lookup r ((args.get 0).setWidth 32) = pair at looked live ran
    obtain ⟨sock, found⟩ := pair
    cases sock with
    | none =>
      obtain ⟨-, rfl⟩ := Prod.mk.inj ran
      exact .looked looked
    | some s =>
      by_cases socket : (found.objects s).isSocket = false
      · simp only [if_pos socket, Prod.mk.injEq] at ran
        exact ran.2 ▸ .looked looked
      · simp only [if_neg socket] at ran
        cases parsed : parseAddr (found.readMemory r) around.stack (args.get 1)
          (args.get 2).toNat with
        | error e =>
          rw [parsed] at ran
          obtain ⟨-, rfl⟩ := Prod.mk.inj ran
          exact .looked looked
        | ok a =>
          rw [parsed] at ran
          dsimp only at ran
          cases owned : found.net.resolve a with
          | some p =>
            obtain ⟨code, owners, destroyed⟩ := Net.bind_refused (s := s) owned
            have fails : (found.net.bind a s).1 ≠ 0 := by
              rw [code]
              decide
            simp only [if_pos fails, Prod.mk.injEq] at ran
            rw [← ran.2]
            exact .looked ⟨looked.looked.withNet (owners.trans looked.looked.owners),
              destroyed.trans looked.steady.destroyed, looked.steady.netFaults⟩
          | none =>
            have code := (Net.bind_accepted s owned).1
            simp only [code, ne_eq, not_true_eq_false, if_false, Prod.mk.injEq] at ran
            obtain ⟨rfl, rfl⟩ := ran
            have isSocket : (sim.objects s).isSocket = true := by
              rw [← looked.looked.objects]
              simpa using socket
            have same : found.memories = sim.memories := looked.looked.memories
            have memories : found.readMemory r = sim.readMemory r := by
              funext ptr data
              simp only [Sim.readMemory, same]
            exact .bound rfl live.symm isSocket (memories ▸ parsed)
              ((congrFun looked.looked.owners a).symm.trans owned) looked rfl

theorem connect_steady (around : Surroundings) (sim : Sim) (r : ReplicaId) (args : Args) :
    Steady sim (sysConnect around sim r args).2 := by
  by_cases real : isSimulated ((args.get 0).setWidth 32) = false
  · simp only [sysConnect, if_pos real]
    exact .refl sim
  · cases parsed : parseAddr (sim.readMemory r) around.stack (args.get 1) (args.get 2).toNat with
    | error e =>
      simp only [sysConnect, if_neg real, parsed]
      exact .refl sim
    | ok addr =>
      have asked : (sim.net.get addr).2.destroyed = sim.net.destroyed :=
        (sim.net.get_spec addr).2.2
      simp only [sysConnect, if_neg real, parsed]
      split
      · exact ⟨rfl, rfl⟩
      · split
        · exact ⟨rfl, rfl⟩
        · split
          · exact ⟨asked, rfl⟩
          · split
            · exact ⟨asked, rfl⟩
            · split
              · exact ⟨asked, rfl⟩
              · split <;> exact ⟨asked, rfl⟩

theorem connect_effect (around : Surroundings) (sim : Sim) (r : ReplicaId) (args : Args) :
    Effect admits sim (.call r .connect args (sysConnect around sim r args).1)
      (sysConnect around sim r args).2 := by
  by_cases real : isSimulated ((args.get 0).setWidth 32) = false
  · simp only [sysConnect, if_pos real]
    exact .idle rfl
  · cases parsed : parseAddr (sim.readMemory r) around.stack (args.get 1) (args.get 2).toNat with
    | error e =>
      simp only [sysConnect, if_neg real, parsed]
      exact .idle rfl
    | ok addr =>
      have ended := sysConnect_ends real parsed
      have steady := connect_steady around sim r args
      generalize (sysConnect around sim r args).1 = result at ended ⊢
      generalize (sysConnect around sim r args).2 = after at ended steady ⊢
      cases ended with
      | refused errno negative looked => exact .looked ⟨looked, steady⟩
      | @called found s p near far ends quiet looked =>
        have kept : Steady sim found := ⟨steady.destroyed, steady.netFaults⟩
        rcases connect_cases near p far.af with ⟨-, same, -⟩ | ⟨done, set, idle, family⟩
        · rw [same, ← ends.isCaller, ← looked.objects, setObject_self]
          exact .looked ⟨looked, kept⟩
        · rw [set, done]
          exact .connected rfl parsed ends ⟨idle, quiet⟩ family ⟨looked, kept⟩ rfl

/-- A `send_to` reaches the datagram socket at its destination, or asks the network only. -/
theorem sendTo_cases {around : Surroundings} {buffer bytes : U64} {dst : Addr}
    (returned : sendTo around sim r buffer bytes dst = some (result, after)) :
    after = { sim with net := (sim.net.get dst).2 } ∨
      ∃ s sock fate pipe, sim.net.resolve dst = some s ∧ sim.objects s = .datagram sock ∧
        sock.inbound.send around.host around.fuel around.now
          (ChildMemory.readMemory (sim.memories r) buffer (List.replicate bytes.toNat 0)).2
          default = some (fate, pipe) ∧
        result = .handled bytes ∧
        after = { sim with net := (sim.net.get dst).2 }.setObject s
          (.datagram { sock with inbound := pipe }) := by
  have found := (sim.net.get_spec dst).1
  cases owner : sim.net.resolve dst with
  | none =>
    rw [owner] at found
    simp only [sendTo, FaultSchedule.World.sendTo, Sim.world, found] at returned
    exact Or.inl (Prod.mk.inj (Option.some.inj returned)).2.symm
  | some s =>
    rw [owner] at found
    cases target : (sim.objects s).asDatagram with
    | none =>
      simp only [sendTo, FaultSchedule.World.sendTo, Sim.world, found, target,
        Option.map_none] at returned
      exact Or.inl (Prod.mk.inj (Option.some.inj returned)).2.symm
    | some sock =>
      have success : ¬(ChildMemory.readMemory (sim.memories r) buffer
          (List.replicate bytes.toNat 0)).1.toInt < 0 := by
        rw [ChildMemory.readMemory_zero]
        decide
      simp only [sendTo, FaultSchedule.World.sendTo, Sim.world, found, target, Option.map_some,
        if_neg success] at returned
      by_cases large : 2 ^ 63 ≤ bytes.toNat
      · rw [if_pos large] at returned
        cases returned
      · rw [if_neg large] at returned
        cases sent : sock.inbound.send around.host around.fuel around.now
          (ChildMemory.readMemory (sim.memories r) buffer (List.replicate bytes.toNat 0)).2
          default with
        | none =>
          rw [sent] at returned
          cases returned
        | some pair =>
          rw [sent] at returned
          obtain ⟨rfl, rfl⟩ := Prod.mk.inj (Option.some.inj returned)
          exact Or.inr ⟨s, sock, pair.1, pair.2, rfl, datagram_of_asDatagram target, sent, rfl, rfl⟩

theorem sendto_effect {around : Surroundings} (admitted : admits around.host)
    (returned : sysSendto around sim r args = some (result, after)) :
    Effect admits sim (.call r .sendto args result) after := by
  by_cases real : isSimulated ((args.get 0).setWidth 32) = false
  · simp only [sysSendto, if_pos real] at returned
    exact .idle (Prod.mk.inj (Option.some.inj returned)).2.symm
  · have looked := looked_lookup sim (.call r .sendto args result)
    have live := lookup_fst sim r ((args.get 0).setWidth 32)
    simp only [caller, fdOf, argsOf] at looked
    cases parsed : parseAddr (sim.readMemory r) around.stack (args.get 4) (args.get 5).toNat with
    | error e =>
      simp only [sysSendto, if_neg real, parsed] at returned
      exact .idle (Prod.mk.inj (Option.some.inj returned)).2.symm
    | ok dst =>
      simp only [sysSendto, if_neg real, parsed] at returned
      generalize sim.lookup r ((args.get 0).setWidth 32) = pair at looked live returned
      obtain ⟨fd, found⟩ := pair
      cases fd with
      | none =>
        obtain ⟨-, rfl⟩ := Prod.mk.inj (Option.some.inj returned)
        exact .looked looked
      | some t =>
        dsimp only at returned live
        cases kind : (found.objects t).asDatagram with
        | none =>
          rw [kind] at returned
          obtain ⟨-, rfl⟩ := Prod.mk.inj (Option.some.inj returned)
          exact .looked looked
        | some own =>
          rw [kind] at returned
          rcases sendTo_cases returned with same |
            ⟨s, sock, fate, pipe, owner, target, sent, rfl, same⟩
          · rw [same]
            exact .looked (looked.get dst)
          · rw [looked.looked.objects] at kind target
            rw [looked.looked.owners] at owner
            rw [looked.looked.memories] at sent
            exact .sent admitted rfl live.symm (datagram_of_asDatagram kind) parsed owner target
              sent
              (looked.get dst) same

/-- The descriptor of a `recvfrom` that waits for a packet. -/
theorem recvfrom_opened {s : SocketId} {sock : DatagramSocket} {found : Sim}
    (waits : sysRecvfrom sim r args = (.ok (s, sock), found)) :
    (sim.fdTables r).live ((args.get 0).setWidth 32) = some s ∧ sim.objects s = .datagram sock ∧
      found = (sim.lookup r ((args.get 0).setWidth 32)).2 := by
  by_cases real : isSimulated ((args.get 0).setWidth 32) = false
  · simp only [sysRecvfrom, if_pos real] at waits
    cases waits
  · have live := lookup_fst sim r ((args.get 0).setWidth 32)
    have objects : (sim.lookup r ((args.get 0).setWidth 32)).2.objects = sim.objects := rfl
    simp only [sysRecvfrom, if_neg real] at waits
    generalize sim.lookup r ((args.get 0).setWidth 32) = pair at live objects waits ⊢
    obtain ⟨fd, looked⟩ := pair
    cases fd with
    | none => cases waits
    | some t =>
      dsimp only at waits live objects
      cases kind : (looked.objects t).asDatagram with
      | none =>
        rw [kind] at waits
        cases waits
      | some own =>
        rw [kind] at waits
        obtain ⟨same, rfl⟩ := Prod.mk.inj waits
        obtain ⟨rfl, rfl⟩ := Prod.mk.inj (Except.ok.inj same)
        rw [objects] at kind
        exact ⟨live.symm, datagram_of_asDatagram kind, rfl⟩

theorem recvfrom_effect {now : I64} {p : Packet}
    (received : Receives now sim r args p result after) :
    Effect admits sim (.recvfrom r args p result) after := by
  obtain ⟨s, sock, found, waits, top, ready, done⟩ := received
  obtain ⟨opened, datagram, rfl⟩ := recvfrom_opened waits
  obtain ⟨rfl, rfl⟩ := Prod.mk.inj done
  exact .received rfl opened datagram top ready (looked_lookup sim _) rfl

theorem recvfromFailed_effect (failing : sysRecvfrom sim r args = (.error result, after)) :
    Effect admits sim (.recvfromFailed r args result) after := by
  by_cases real : isSimulated ((args.get 0).setWidth 32) = false
  · simp only [sysRecvfrom, if_pos real] at failing
    exact .idle (Prod.mk.inj failing).2.symm
  · simp only [sysRecvfrom, if_neg real] at failing
    have looked := looked_lookup sim (.recvfromFailed r args result)
    split at failing
    · exact (Prod.mk.inj failing).2 ▸ .looked looked
    · split at failing
      · exact (Prod.mk.inj failing).2 ▸ .looked looked
      · cases failing

end Calls

/-- The steps on the hosts that are admitted. -/
def StepOn (admits : FaultSampling.Host → Prop) (sim : Sim) : SysEvent → Sim → Prop
  | .call r call args result, after =>
    ∃ around, admits around.host ∧ syscall around sim r args call = some (result, after)
  | e, after => SysStep sim e after

theorem sysStep_iff {sim after : Sim} {e : SysEvent} :
    SysStep sim e after ↔ StepOn (fun _ => True) sim e after := by
  cases e with
  | call r call args result => simp only [SysStep, StepOn, true_and]
  | recvfrom => exact Iff.rfl
  | recvfromFailed => exact Iff.rfl
  | compute => exact Iff.rfl

theorem StepOn.sysStep {admits : FaultSampling.Host → Prop} {sim after : Sim} {e : SysEvent}
    (taken : StepOn admits sim e after) : SysStep sim e after := by
  cases e with
  | call r call args result =>
    obtain ⟨around, -, ran⟩ := taken
    exact ⟨around, ran⟩
  | recvfrom => exact taken
  | recvfromFailed => exact taken
  | compute => exact taken

theorem effect_of_step {admits : FaultSampling.Host → Prop} {sim after : Sim} {e : SysEvent}
    (wf : WellFormed sim) (taken : StepOn admits sim e after) : Effect admits sim e after := by
  cases e with
  | call r call args result =>
    obtain ⟨around, admitted, ran⟩ := taken
    cases call with
    | read =>
      obtain ⟨rfl, rfl⟩ := Prod.mk.inj (Option.some.inj ran)
      exact read_effect sim r args
    | write =>
      obtain ⟨rfl, rfl⟩ := Prod.mk.inj (Option.some.inj ran)
      exact write_effect sim r args
    | close =>
      obtain ⟨rfl, rfl⟩ := Prod.mk.inj (Option.some.inj ran)
      exact close_effect sim r args
    | socket => exact socket_effect (wf.numbers r) (Option.some.inj ran)
    | sendto => exact sendto_effect admitted ran
    | connect =>
      obtain ⟨rfl, rfl⟩ := Prod.mk.inj (Option.some.inj ran)
      exact connect_effect around sim r args
    | bind => exact bind_effect (Option.some.inj ran)
  | recvfrom r args p result =>
    obtain ⟨now, received⟩ := taken
    exact recvfrom_effect received
  | recvfromFailed r args result => exact recvfromFailed_effect taken
  | compute r memory => exact .computed taken

/-! ## The objects -/

/-- What a step can make of an object that exists: it stays of its class and family. -/
inductive Reshapes : Descriptor → Descriptor → Prop where
  | connect (sock : StreamSocket) (p : SocketId) :
      Reshapes (.stream sock) (.stream { sock with peer := some p })
  | queue (sock : DatagramSocket) (pipe : Pipe) :
      Reshapes (.datagram sock) (.datagram { sock with inbound := pipe })

/-- At most one object changes in a step, or one is made. -/
theorem objects_step {admits : FaultSampling.Host → Prop} {sim after : Sim} {e : SysEvent}
    (effect : Effect admits sim e after) :
    (after.nextObject = sim.nextObject ∧
      (after.objects = sim.objects ∨ ∃ s d, Reshapes (sim.objects s) d ∧
        after.objects = update sim.objects s d)) ∨
    (after.nextObject = sim.nextObject + 1 ∧ ∃ d rng, New sim d rng ∧
      after.objects = update sim.objects sim.nextObject d) := by
  cases effect with
  | idle same =>
    rw [same]
    exact Or.inl ⟨rfl, Or.inl rfl⟩
  | looked looked => exact Or.inl ⟨looked.looked.next, Or.inl looked.looked.objects⟩
  | closed opened same =>
    rw [same]
    exact Or.inl ⟨rfl, Or.inl rfl⟩
  | unopened new same =>
    rw [same]
    exact Or.inr ⟨rfl, _, _, new, rfl⟩
  | made new inserted nonneg same =>
    rw [same]
    exact Or.inr ⟨rfl, _, _, new, rfl⟩
  | bound event opened socket parsed free looked same =>
    rw [same]
    exact Or.inl ⟨looked.looked.next, Or.inl looked.looked.objects⟩
  | @connected found s p a near far around event parsed ends quiet family looked same =>
    rw [same]
    refine Or.inl ⟨looked.looked.next, Or.inr ⟨s, _, ?_, congrArg (update · s _)
      looked.looked.objects⟩⟩
    rw [ends.isCaller]
    exact .connect near p
  | @sent found t s own sock dst fate pipe around admitted event opened datagram parsed owner target
      drawn looked same =>
    rw [same]
    refine Or.inl ⟨looked.looked.next, Or.inr ⟨s, _, ?_, congrArg (update · s _)
      looked.looked.objects⟩⟩
    rw [target]
    exact .queue sock pipe
  | @received found s sock p result memory now event opened datagram top ready looked same =>
    rw [same]
    refine Or.inl ⟨looked.looked.next, Or.inr ⟨s, _, ?_, congrArg (update · s _)
      looked.looked.objects⟩⟩
    rw [datagram]
    exact .queue sock _
  | computed same =>
    rw [same]
    exact Or.inl ⟨rfl, Or.inl rfl⟩

theorem Reshapes.isSocket {d d' : Descriptor} (reshapes : Reshapes d d') :
    d'.isSocket = true := by
  cases reshapes with
  | connect => rfl
  | queue => rfl

theorem New.isSocket {sim : Sim} {d : Descriptor} {rng : Xoshiro} (new : New sim d rng) :
    d.isSocket = true := by
  cases new with
  | stream => rfl
  | datagram => rfl

end HookEffects
