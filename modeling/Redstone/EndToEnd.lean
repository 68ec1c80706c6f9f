import Redstone.HookOutcomes

/-!
# A datagram from one program to another

`sys_sendto` copies bytes out of the sender's memory into a packet, `sys_recvfrom` copies
the bytes of a packet into the receiver's memory. Where every word touched is mapped the
two copies compose: the receiver gets the bytes the sender had, cut off at its length,
and no other byte of any program changes.
-/

namespace EndToEnd

open MachineWords Generators FaultSampling ByteWindows SocketAddr Network DatagramPipe
open FdTable ParseAddr ChildMemory
open TraceLoop (Args HookResult)
open SocketSeeds (ReplicaId)
open Syscalls HookOutcomes StepRuns Function

/-- Every byte of the range is mapped, and so is every word that a transfer touches. -/
def Reachable (m : Memory) (ptr : U64) (n : Nat) : Prop := Mapped m ptr n ∧ TailMapped m ptr n

instance (m : Memory) (ptr : U64) (n : Nat) : Decidable (Reachable m ptr n) :=
  inferInstanceAs (Decidable (_ ∧ _))

/-- The socket after a send queued its packets. -/
def queueing (sock : DatagramSocket) (packets : List Packet) (rng : Xoshiro) : DatagramSocket :=
  let queued := sock.inbound.packets + (packets : Multiset Packet)
  { sock with inbound := { sock.inbound with packets := queued, rng } }

/-- The bytes of a range. -/
def bytesAt (m : Memory) (ptr : U64) (n : Nat) : List Byte :=
  (window m ptr n).map fun cell => cell.getD 0

theorem readMemory_reachable {m : Memory} {ptr : U64} {buffer : List Byte}
    (reachable : Reachable m ptr buffer.length) :
    readMemory m ptr buffer = (0, bytesAt m ptr buffer.length) :=
  (readHonest_of_tailMapped reachable.1 reachable.2 buffer rfl).1 _
    (window_of_mapped reachable.1)

theorem sendTo_delivers {around : Surroundings} {sim : Sim} {r : ReplicaId} {buffer bytes : U64}
    {dst : Addr} {s : SocketId} {sock : DatagramSocket} {fate : Fate} {rng : Xoshiro}
    (size : bytes.toNat < 2 ^ 63)
    (source : Reachable (sim.memories r) buffer bytes.toNat)
    (owner : sim.net.resolve dst = some s) (target : sim.objects s = .datagram sock)
    (drawn : drawFate sock.inbound.options around.host around.fuel sock.inbound.rng =
      some (fate, rng)) :
    sendTo around sim r buffer bytes dst = some (.handled bytes,
      { sim with net := (sim.net.get dst).2 }.setObject s (.datagram (queueing sock
        (fate.packets around.now (bytesAt (sim.memories r) buffer bytes.toNat) default)
        rng))) := by
  have length : (List.replicate bytes.toNat (0 : Byte)).length = bytes.toNat :=
    List.length_replicate
  have read : readMemory (sim.memories r) buffer (List.replicate bytes.toNat 0) =
      (0, bytesAt (sim.memories r) buffer bytes.toNat) := by
    rw [readMemory_reachable (length.symm ▸ source), length]
  have found : (sim.net.get dst).1 = some s := (sim.net.get_spec dst).1.trans owner
  have inbound : sim.world.inbound s = some sock.inbound := by
    simp only [Sim.world, target, Descriptor.asDatagram, Option.map_some]
  have asked : sim.world.sendTo dst (.ok (bytesAt (sim.memories r) buffer bytes.toNat)) =
      (.ok (s, bytesAt (sim.memories r) buffer bytes.toNat),
        { sim.world with net := (sim.net.get dst).2 }) := by
    have world : sim.world.net = sim.net := rfl
    simp only [FaultSchedule.World.sendTo, world, found, inbound]
  have success : ¬(0 : CInt).toInt < 0 := by decide
  simp only [sendTo, read, if_neg success, asked, if_neg (Nat.not_le.mpr size), target,
    Descriptor.asDatagram, send_eq, drawn, Option.map_some, queueing]

/-- With an address and a datagram socket at hand, a `sendto` is a `send_to`. -/
theorem sysSendto_eq {around : Surroundings} {sim : Sim} {r : ReplicaId} {args : Args}
    {t : SocketId} {own : DatagramSocket} {dst : Addr}
    (simulated : isSimulated ((args.get 0).setWidth 32) = true)
    (opened : (sim.fdTables r).live ((args.get 0).setWidth 32) = some t)
    (datagram : sim.objects t = .datagram own)
    (parsed : parseAddr (sim.readMemory r) around.stack (args.get 4) (args.get 5).toNat = .ok dst) :
    sysSendto around sim r args = sendTo around (sim.lookup r ((args.get 0).setWidth 32)).2 r
      (args.get 1) (args.get 2) dst := by
  have found : (sim.lookup r ((args.get 0).setWidth 32)).1 = some t :=
    (lookup_fst sim r _).trans opened
  have kind : ((sim.lookup r ((args.get 0).setWidth 32)).2.objects t).asDatagram = some own :=
    congrArg Descriptor.asDatagram datagram
  have real : ¬isSimulated ((args.get 0).setWidth 32) = false := by
    rw [simulated]
    decide
  simp only [sysSendto, if_neg real, parsed, found, kind]

theorem deliverTo_copies {sim : Sim} {r : ReplicaId} {buffer bytes : U64} {data : List Byte}
    (destination : Reachable (sim.memories r) buffer (min data.length bytes.toNat)) :
    deliverTo sim r buffer bytes data =
      (.handled (BitVec.ofNat 64 (min data.length bytes.toNat)),
        { sim with
          memories := update sim.memories r
            (overlay (sim.memories r) buffer ((data.take bytes.toNat).map some)) }) := by
  have cut : (if bytes.toNat < data.length then data.take bytes.toNat else data) =
      data.take bytes.toNat := by
    by_cases long : bytes.toNat < data.length
    · rw [if_pos long]
    · rw [if_neg long, List.take_of_length_le (Nat.le_of_not_lt long)]
  have length : (data.take bytes.toNat).length = min data.length bytes.toNat := by
    rw [List.length_take, Nat.min_comm]
  have fits : (data.take bytes.toNat).length ≤ 2 ^ 64 := by
    rw [List.length_take]
    omega
  obtain ⟨mapped, tail⟩ := length.symm ▸ destination
  have written := (writeHonest_of_tailMapped fits mapped tail).1 mapped
  simp only [deliverTo, cut, written, length]

/-- What a transfer of `k` bytes does to the memories: the range holds the bytes, and no
byte outside it changes, in any program. -/
def Copied (bytes : List Byte) (r : ReplicaId) (ptr : U64) (before after : ReplicaId → Memory) :
    Prop :=
  window (after r) ptr bytes.length = bytes.map some ∧
    (∀ a, (∀ i < bytes.length, a ≠ ptr + BitVec.ofNat 64 i) → after r a = before r a) ∧
    ∀ q, q ≠ r → after q = before q

theorem copied_overlay {bytes : List Byte} (fits : bytes.length ≤ 2 ^ 64) (r : ReplicaId)
    (ptr : U64) (before : ReplicaId → Memory) :
    Copied bytes r ptr before (update before r (overlay (before r) ptr (bytes.map some))) := by
  have length : (bytes.map some).length = bytes.length := List.length_map some
  refine ⟨?_, ?_, fun q other => update_of_ne other _ before⟩
  · rw [update_self, ← length]
    exact window_overlay (length.symm ▸ fits)
  · intro a off
    rw [update_self]
    exact overlay_off (length.symm ▸ off)

theorem sysRecvfrom_memories (sim : Sim) (r : ReplicaId) (args : Args) :
    (sysRecvfrom sim r args).2.memories = sim.memories := by
  rcases sysRecvfrom_looked sim r args with same | looked
  · rw [same]
  · exact looked.memories

/-- A `recvfrom` that returns `p` copies the beginning of its bytes, and nothing else. -/
theorem receives_copies {now : I64} {sim after : Sim} {r : ReplicaId} {args : Args} {p : Packet}
    {result : HookResult} (received : Receives now sim r args p result after)
    (destination :
      Reachable (sim.memories r) (args.get 1) (min p.bytes.length (args.get 2).toNat)) :
    result = .handled (BitVec.ofNat 64 (min p.bytes.length (args.get 2).toNat)) ∧
      Copied (p.bytes.take (args.get 2).toNat) r (args.get 1) sim.memories after.memories := by
  obtain ⟨s, sock, found, looked, _, _, delivered⟩ := received
  have memories : found.memories = sim.memories := by
    have same := congrArg (fun pair => pair.2.memories) looked
    rw [← same]
    exact sysRecvfrom_memories sim r args
  rw [deliverTo_copies (memories.symm ▸ destination)] at delivered
  obtain ⟨rfl, rfl⟩ := Prod.mk.inj delivered
  have fits : (p.bytes.take (args.get 2).toNat).length ≤ 2 ^ 64 := by
    rw [List.length_take]
    omega
  refine ⟨rfl, ?_⟩
  rw [← memories]
  exact copied_overlay fits r (args.get 1) found.memories

theorem bytes_of_packets {fate : Fate} {now : I64} {data : List Byte} {source : Addr}
    {p : Packet} (member : p ∈ fate.packets now data source) : p.bytes = data := by
  cases fate with
  | dropped => cases member
  | queued latency replayCount replays =>
    rcases List.mem_cons.mp member with rfl | replayed
    · rfl
    · obtain ⟨l, _, rfl⟩ := List.mem_map.mp replayed
      rfl

/-- A `sendto` that is not dropped returns its length, queues its packets at the owner of
the address and changes nothing else that programs or sockets can see. Every later
`recvfrom` that returns one of the packets hands over the bytes the sender had. -/
theorem datagram_copied {around : Surroundings} {sim : Sim} {r : ReplicaId} {args : Args}
    {t s : SocketId} {own sock : DatagramSocket} {dst : Addr} {fate : Fate} {rng : Xoshiro}
    (simulated : isSimulated ((args.get 0).setWidth 32) = true)
    (opened : (sim.fdTables r).live ((args.get 0).setWidth 32) = some t)
    (datagram : sim.objects t = .datagram own)
    (parsed : parseAddr (sim.readMemory r) around.stack (args.get 4) (args.get 5).toNat = .ok dst)
    (size : (args.get 2).toNat < 2 ^ 63)
    (source : Reachable (sim.memories r) (args.get 1) (args.get 2).toNat)
    (owner : sim.net.resolve dst = some s) (target : sim.objects s = .datagram sock)
    (drawn : drawFate sock.inbound.options around.host around.fuel sock.inbound.rng =
      some (fate, rng)) (notDropped : fate ≠ .dropped) :
    ∃ after data, window (sim.memories r) (args.get 1) (args.get 2).toNat = data.map some ∧
      sysSendto around sim r args = some (.handled (args.get 2), after) ∧
      after.memories = sim.memories ∧
      (∀ u, u ≠ s → after.objects u = sim.objects u) ∧
      after.objects s =
        .datagram (queueing sock (fate.packets around.now data default) rng) ∧
      fate.packets around.now data default ≠ [] ∧
      ∀ past mid q args' now p result final, Path SysStep after past mid →
        p ∈ fate.packets around.now data default → Receives now mid q args' p result final →
        Reachable (mid.memories q) (args'.get 1) (min (args.get 2).toNat (args'.get 2).toNat) →
          result = .handled (BitVec.ofNat 64 (min (args.get 2).toNat (args'.get 2).toNat)) ∧
          Copied (data.take (args'.get 2).toNat) q (args'.get 1) mid.memories final.memories := by
  have sent := (sysSendto_eq simulated opened datagram parsed).trans
    (sendTo_delivers (r := r) size source owner target drawn)
  have length :
      (bytesAt (sim.memories r) (args.get 1) (args.get 2).toNat).length = (args.get 2).toNat := by
    rw [bytesAt, List.length_map, length_window]
  refine ⟨_, bytesAt (sim.memories r) (args.get 1) (args.get 2).toNat,
    window_of_mapped source.1, sent, rfl, fun u other => update_of_ne other _ _,
    update_self _ _ _, ?_, ?_⟩
  · cases fate with
    | dropped => exact absurd rfl notDropped
    | queued latency replayCount replays => exact List.cons_ne_nil _ _
  · intro past mid q args' now p result final _ member received destination
    have bytes := bytes_of_packets member
    have sizes : p.bytes.length = (args.get 2).toNat := by rw [bytes, length]
    have copied := receives_copies received (sizes.symm ▸ destination)
    rwa [sizes, bytes] at copied

/-- Replica 0 sends eleven bytes from an odd address to a socket at the zero address, and
replica 1, whose socket this is, receives them at another one. -/
theorem datagram_copied_eleven :
    ∃ (around : Surroundings) (sim after final : Sim) (p : Packet),
      window (sim.memories 0) 5 11 = [5, 6, 7, 8, 9, 10, 11, 12, 13, 14, 15].map some ∧
        sysSendto around sim 0 #v[0x40000000, 5, 11, 0, 1000, 16] = some (.handled 11, after) ∧
        Receives 0 after 1 #v[0x40000000, 33, 20, 0, 0, 0] p (.handled 11) final ∧
        window (final.memories 1) 33 11 = [5, 6, 7, 8, 9, 10, 11, 12, 13, 14, 15].map some := by
  let host : Host := ⟨fun _ rng => (false, rng.advance), fun _ => 0⟩
  let around : Surroundings := ⟨host, 1, 0, fun _ => 0⟩
  let rng : Xoshiro := ⟨1, 2, 3, 4⟩
  let memory : Memory := fun a =>
    some (if a = 1000 then 2 else if a < 100 then a.setWidth 8 else 0)
  let sock : DatagramSocket := ⟨.ipv4, DatagramPipe.opened defaultFaults rng⟩
  let sim : Sim := {
    rng := rng
    netFaults := defaultFaults
    net := (Network.empty.bind default 1).2
    objects := fun _ => .datagram sock
    nextObject := 2
    fdTables := fun r => (FdTable.empty.insert (some r)).2
    memories := fun _ => memory }
  let args : Args := #v[0x40000000, 5, 11, 0, 1000, 16]
  let args' : Args := #v[0x40000000, 33, 20, 0, 0, 0]
  have address : Reachable memory 1000 (List.replicate 16 (0 : Byte)).length := by decide
  have read : readMemory (sim.memories 0) 1000 (List.replicate 16 0) =
      (0, bytesAt memory 1000 16) := readMemory_reachable address
  have parsed : parseAddr (sim.readMemory 0) around.stack (args.get 4) (args.get 5).toNat =
      .ok default := by
    have family : word (fill around.stack (bytesAt memory 1000 16)) 0 = AF_INET := by decide
    change parseAddr (sim.readMemory 0) around.stack 1000 16 = .ok default
    simp only [parseAddr, Sim.readMemory, read]
    rw [if_neg (by decide), if_neg (by decide), addrOf, if_pos family]
    exact congrArg Except.ok (by decide)
  have drawn : drawFate sock.inbound.options around.host around.fuel sock.inbound.rng =
      some (.queued 0 0 [], Xoshiro.advance^[3] rng) := by decide +kernel
  have simulated : isSimulated ((args.get 0).setWidth 32) = true := by decide
  have opened : (sim.fdTables 0).live ((args.get 0).setWidth 32) = some 0 := by decide
  have source : Reachable (sim.memories 0) (args.get 1) (args.get 2).toNat := by decide
  have owner : sim.net.resolve default = some 1 := by decide
  have target : sim.objects 1 = .datagram sock := rfl
  obtain ⟨after, data, bytes, sent, memories, _, queued, -, received⟩ :=
    datagram_copied simulated opened rfl parsed (by decide) source owner target drawn
      (by decide)
  have there : window (sim.memories 0) 5 11 = [5, 6, 7, 8, 9, 10, 11, 12, 13, 14, 15].map some := by
    decide
  obtain rfl : data = [5, 6, 7, 8, 9, 10, 11, 12, 13, 14, 15] :=
    List.map_injective_iff.mpr (Option.some_injective Byte) (bytes.symm.trans there)
  let p : Packet := ⟨0, [5, 6, 7, 8, 9, 10, 11, 12, 13, 14, 15], default⟩
  have top : (queueing sock [p] (Xoshiro.advance^[3] rng)).inbound.IsTop p := by
    refine ⟨Multiset.mem_singleton_self p, fun q waits => ?_⟩
    obtain rfl := Multiset.mem_singleton.mp waits
    decide
  have held : (after.fdTables 1).live ((args'.get 0).setWidth 32) = some 1 := by
    have tables : (sysSendto around sim 0 args).map (fun ran =>
        (ran.2.fdTables 1).live ((args'.get 0).setWidth 32)) = some (some 1) := by decide +kernel
    rw [sent] at tables
    exact Option.some.inj tables
  have waits := sysRecvfrom_eq (by decide) held queued
  obtain ⟨result, final, receives⟩ : ∃ result final, Receives 0 after 1 args' p result final :=
    ⟨_, _, 1, _, _, waits, top, by decide, rfl⟩
  have destination : Reachable (after.memories 1) (args'.get 1)
      (min (args.get 2).toNat (args'.get 2).toNat) := by
    rw [memories]
    decide
  obtain ⟨rfl, copied, -⟩ :=
    received [] after 1 args' 0 p result final .start List.mem_cons_self receives destination
  exact ⟨around, sim, after, final, p, there, sent, receives, copied⟩

end EndToEnd
