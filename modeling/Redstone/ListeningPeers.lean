import Redstone.HookOutcomes

/-!
# Which peers `sys_connect` admits

A connect that passes all other checks is refused if the peer is listening and accepted if
it is not. So the call tells listening peers from others in the wrong direction exactly
where its answer depends on that.
-/

namespace ListeningPeers

open MachineWords SocketAddr Network FdTable ParseAddr Syscalls HookOutcomes Function
open SocketSeeds (ReplicaId)
open TraceLoop (Args HookResult)

/-- `fd` is a stream socket that does not listen, and the address resolves to a stream
socket of the same family. -/
structure Eligible (sim : Sim) (r : ReplicaId) (fd : CInt) (addr : Addr) (s p : SocketId)
    (caller callee : StreamSocket) : Prop where
  opened : (sim.fdTables r).live fd = some s
  isCaller : sim.objects s = .stream caller
  quiet : caller.listening = false
  bound : sim.net.resolve addr = some p
  isCallee : sim.objects p = .stream callee
  sameFamily : caller.af = callee.af

/-- `peer_` of a socket. -/
def peerOf (sim : Sim) (q : SocketId) : Option (Option SocketId) :=
  (sim.objects q).asStream.map StreamSocket.peer

/-- The call returns zero and connects if the caller is eligible and the peer listens, and
else fails with a negative result and leaves every `peer_` as it is. -/
def AdmitsListening (around : Surroundings) (sim : Sim) (r : ReplicaId) (args : Args)
    (addr : Addr) : Prop :=
  let fd : CInt := (args.get 0).setWidth 32
  (∀ s p caller callee, Eligible sim r fd addr s p caller callee → callee.listening = true →
    (sysConnect around sim r args).1 = .handled 0 ∧
      peerOf (sysConnect around sim r args).2 s = some (some p) ∧
      ∀ q, q ≠ s → peerOf (sysConnect around sim r args).2 q = peerOf sim q) ∧
    ((∀ s p caller callee, Eligible sim r fd addr s p caller callee →
        callee.listening = false) →
      ∃ v, (sysConnect around sim r args).1 = .handled v ∧ v.toInt < 0 ∧
        peerOf (sysConnect around sim r args).2 = peerOf sim)

theorem Eligible.ends {sim : Sim} {r : ReplicaId} {fd : CInt} {addr : Addr} {s p : SocketId}
    {caller callee : StreamSocket} (eligible : Eligible sim r fd addr s p caller callee) :
    StreamEnds sim r fd addr s p caller callee :=
  ⟨eligible.opened, eligible.isCaller, eligible.bound, eligible.isCallee⟩

/-- How a call ends whose descriptor is simulated and whose address parses: refused, with
no peer that is eligible or one that listens, or connected to one that does not. -/
theorem sysConnect_cases {around : Surroundings} {sim : Sim} {r : ReplicaId} {args : Args}
    {addr : Addr} (simulated : isSimulated ((args.get 0).setWidth 32) = true)
    (parsed : parseAddr (sim.readMemory r) around.stack (args.get 1) (args.get 2).toNat =
      .ok addr) :
    ((∃ v, (sysConnect around sim r args).1 = .handled v ∧ v.toInt < 0) ∧
        (sysConnect around sim r args).2.objects = sim.objects ∧
        ∀ s p caller callee, Eligible sim r ((args.get 0).setWidth 32) addr s p caller callee →
          callee.listening = true) ∨
      ∃ s p caller callee, Eligible sim r ((args.get 0).setWidth 32) addr s p caller callee ∧
        callee.listening = false ∧ (sysConnect around sim r args).1 = .handled 0 ∧
        (sysConnect around sim r args).2.objects =
          update sim.objects s (.stream { caller with peer := some p }) := by
  have real : ¬isSimulated ((args.get 0).setWidth 32) = false := by
    rw [simulated]
    decide
  have ended := sysConnect_ends real parsed
  generalize (sysConnect around sim r args).1 = result at ended ⊢
  generalize (sysConnect around sim r args).2 = after at ended ⊢
  cases ended with
  | refused errno negative looked listens =>
    exact Or.inl ⟨⟨_, rfl, negative⟩, looked.objects, fun _ _ _ _ eligible =>
      listens eligible.ends⟩
  | @called found s p caller callee ends quiet looked =>
    rcases connect_cases caller p callee.af with ⟨negative, same, barred⟩ |
      ⟨zero, joined, idle, family⟩
    · refine Or.inl ⟨⟨_, rfl, negative⟩, ?_, ?_⟩
      · rw [same, ← ends.isCaller, ← looked.objects, setObject_self]
      · intro s' p' caller' callee' eligible
        obtain ⟨-, -, rfl, rfl⟩ := eligible.ends.unique ends
        exact absurd ⟨eligible.quiet, eligible.sameFamily⟩ barred
    · refine Or.inr ⟨s, p, caller, callee, ⟨ends.opened, ends.isCaller, idle, ends.bound,
        ends.isCallee, family⟩, quiet, ?_, ?_⟩
      · rw [zero]
        rfl
      · rw [Sim.setObject, joined, looked.objects]

/-- Where the caller is eligible, a listening peer is refused and another one admitted. -/
theorem not_admits_of_eligible {around : Surroundings} {sim : Sim} {r : ReplicaId} {args : Args}
    {addr : Addr} (simulated : isSimulated ((args.get 0).setWidth 32) = true)
    (parsed : parseAddr (sim.readMemory r) around.stack (args.get 1) (args.get 2).toNat =
      .ok addr) {s p : SocketId} {caller callee : StreamSocket}
    (eligible : Eligible sim r ((args.get 0).setWidth 32) addr s p caller callee) :
    ¬AdmitsListening around sim r args addr := by
  rintro ⟨admits, refuses⟩
  rcases sysConnect_cases simulated parsed with ⟨⟨v, result, negative⟩, -, listens⟩ |
    ⟨s', p', caller', callee', eligible', idle, result, -⟩
  · have zero := (admits s p caller callee eligible (listens s p caller callee eligible)).1
    rw [result] at zero
    obtain rfl := HookResult.handled.inj zero
    exact absurd negative (by decide)
  · obtain ⟨v, refused, negative, -⟩ := refuses fun _ _ _ _ other =>
      (eligible'.ends.unique other.ends).2.2.2 ▸ idle
    rw [result] at refused
    obtain rfl := HookResult.handled.inj refused
    exact absurd negative (by decide)

/-- For every state, every simulated descriptor and every address that parses: the call
admits exactly the listening peers if and only if its answer does not depend on that,
because the descriptor is no stream socket that could connect or the address does not
resolve to a stream socket of its family. -/
theorem admits_listening_iff {around : Surroundings} {sim : Sim} {r : ReplicaId} {args : Args}
    {addr : Addr} (simulated : isSimulated ((args.get 0).setWidth 32) = true)
    (parsed : parseAddr (sim.readMemory r) around.stack (args.get 1) (args.get 2).toNat =
      .ok addr) :
    AdmitsListening around sim r args addr ↔
      ¬∃ s p caller callee,
        Eligible sim r ((args.get 0).setWidth 32) addr s p caller callee := by
  constructor
  · rintro admits ⟨s, p, caller, callee, eligible⟩
    exact not_admits_of_eligible simulated parsed eligible admits
  · intro ineligible
    rcases sysConnect_cases simulated parsed with ⟨⟨v, result, negative⟩, objects, -⟩ |
      ⟨s, p, caller, callee, eligible, -⟩
    · refine ⟨?_, fun _ => ⟨v, result, negative, ?_⟩⟩
      · intro s p caller callee eligible
        exact absurd ⟨s, p, caller, callee, eligible⟩ ineligible
      · funext q
        rw [peerOf, peerOf, objects]
    · exact absurd ⟨s, p, caller, callee, eligible⟩ ineligible

/-! ## One network -/

/-- Two stream sockets of one replica: 0 behind its descriptor, 1 at the default address. -/
def twoSockets (listening : Bool) : Sim where
  rng := Generators.Xoshiro.zero
  netFaults := FaultSampling.defaultFaults
  net := (Network.empty.bind default 1).2
  objects := fun s => .stream ⟨.ipv4, none, decide (s = 1) && listening⟩
  nextObject := 2
  fdTables := fun _ => (FdTable.empty.insert (some 0)).2
  memories := fun _ => ChildMemory.total fun a => if a = 1000 then 2 else 0

def host : Surroundings := ⟨⟨fun _ rng => (false, rng.advance), fun _ => 0⟩, 0, 0, fun _ => 0⟩

theorem twoSockets_parsed (listening : Bool) :
    parseAddr ((twoSockets listening).readMemory 0) host.stack 1000 16 = .ok default := by
  have family : word (fill host.stack (ByteWindows.window
      (fun a : U64 => if a = 1000 then (2 : Byte) else 0) 1000 16)) 0 = AF_INET := by decide
  simp only [parseAddr, Sim.readMemory, twoSockets, ChildMemory.readMemory_total,
    List.length_replicate]
  rw [if_neg (by decide), if_neg (by decide), addrOf, if_pos family]
  exact congrArg Except.ok (by decide)

/-- A descriptor that is not open. -/
theorem admits_listening_unopened :
    AdmitsListening host (twoSockets true) 0 #v[0x40000001, 1000, 16, 0, 0, 0] default := by
  refine (admits_listening_iff (by decide) (twoSockets_parsed true)).mpr ?_
  rintro ⟨s, p, caller, callee, eligible⟩
  have closed : ((twoSockets true).fdTables 0).live 0x40000001 = none := by decide
  exact absurd (closed.symm.trans eligible.opened) (by simp)

theorem twoSockets_eligible (listening : Bool) :
    Eligible (twoSockets listening) 0 0x40000000 default 0 1 ⟨.ipv4, none, false⟩
      ⟨.ipv4, none, listening⟩ where
  opened := by
    have live : (FdTable.empty.insert (some 0)).2.live 0x40000000 = some 0 := by decide
    exact live
  isCaller := rfl
  quiet := rfl
  bound := by
    have owner : (Network.empty.bind default 1).2.resolve default = some 1 := by decide
    exact owner
  isCallee := by cases listening <;> rfl
  sameFamily := rfl

/-- Neither a peer that listens nor one that does not is treated as it should be: the first
is refused, and to the second the call connects. -/
theorem admits_wrong_peer :
    ¬AdmitsListening host (twoSockets true) 0 #v[0x40000000, 1000, 16, 0, 0, 0] default ∧
      ¬AdmitsListening host (twoSockets false) 0 #v[0x40000000, 1000, 16, 0, 0, 0] default :=
  ⟨not_admits_of_eligible (by decide) (twoSockets_parsed true) (twoSockets_eligible true),
    not_admits_of_eligible (by decide) (twoSockets_parsed false) (twoSockets_eligible false)⟩

end ListeningPeers
