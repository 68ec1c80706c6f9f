import Redstone.SocketLifetimes

/-!
# Where packets come from

In every run of the system, a packet that waits in a pipe or was received from one was
put there by a `sendto` to an address of the pipe's socket, with the bytes that the
sender's memory had at that moment. A descriptor that stays open sees the run of a pipe.
-/

namespace PacketOrigins

open MachineWords Generators SocketAddr Network DatagramPipe FdTable ParseAddr
open SocketSeeds (ReplicaId)
open TraceLoop (Args HookResult)
open Syscalls HookOutcomes HookEffects SoleOwners SocketLifetimes StepRuns Function

variable {admits : FaultSampling.Host → Prop}

/-- A packet waits in the pipe of `s`. -/
def Waits (s : SocketId) (p : Packet) (sim : Sim) : Prop :=
  ∃ sock, sim.objects s = .datagram sock ∧ p ∈ sock.inbound.packets

/-- The bytes that `sys_sendto` reads. -/
def payload (sim : Sim) (r : ReplicaId) (args : Args) : List Byte :=
  (ChildMemory.readMemory (sim.memories r) (args.get 1)
    (List.replicate (args.get 2).toNat 0)).2

/-- A `sendto` that succeeds: on an open datagram socket of its caller, to an address that
belongs to `s`, with these bytes. -/
structure SentTo (s : SocketId) (bytes : List Byte) (sim : Sim) (e : SysEvent) : Prop where
  event : e = .call (caller e) .sendto (argsOf e) (.handled ((argsOf e).get 2))
  opened : ∃ t own, Opened sim e t ∧ sim.objects t = .datagram own
  addressed : ∃ stack dst, sim.net.resolve dst = some s ∧
    parseAddr (sim.readMemory (caller e)) stack ((argsOf e).get 4) ((argsOf e).get 5).toNat =
      .ok dst
  bytes : bytes = payload sim (caller e) (argsOf e)

/-- How a step leaves a datagram socket. -/
inductive Piped (admits : FaultSampling.Host → Prop) (sim : Sim) (e : SysEvent) (s : SocketId)
    (after : DatagramSocket) : Prop where
  | kept (same : sim.objects s = .datagram after)
  | opened (fresh : s = sim.nextObject)
      (pipe : after.inbound = opened sim.netFaults (seedFrom Xoshiro.next sim.rng).1)
  | sent {sock : DatagramSocket} {fate : Fate} {around : Surroundings}
      (admitted : admits around.host) (was : sim.objects s = .datagram sock)
      (sender : SentTo s (payload sim (caller e) (argsOf e)) sim e)
      (drawn : sock.inbound.send around.host around.fuel around.now
        (payload sim (caller e) (argsOf e)) default = some (fate, after.inbound))
  | received {sock : DatagramSocket} {p : Packet} {result : HookResult} {now : I64}
      (was : sim.objects s = .datagram sock)
      (event : e = .recvfrom (caller e) (argsOf e) p result) (opened : Opened sim e s)
      (top : sock.inbound.IsTop p) (ready : ¬now.toInt < p.arrival.toInt)
      (popped : after.inbound = (sock.pop p).inbound)

theorem piped_new {sim : Sim} {e : SysEvent} {s : SocketId} {d : Descriptor} {rng : Xoshiro}
    {after : DatagramSocket} (new : New sim d rng)
    (here : update sim.objects sim.nextObject d s = .datagram after) :
    Piped admits sim e s after := by
  by_cases fresh : s = sim.nextObject
  · rw [fresh, update_self] at here
    cases new with
    | stream af => cases here
    | datagram af =>
      obtain rfl := Descriptor.datagram.inj here
      exact .opened fresh rfl
  · rw [update_of_ne fresh] at here
    exact .kept here

theorem piped_step {sim after : Sim} {e : SysEvent} (effect : Effect admits sim e after)
    {s : SocketId} {sock' : DatagramSocket} (here : after.objects s = .datagram sock') :
    Piped admits sim e s sock' := by
  cases effect with
  | idle same => exact .kept (same ▸ here)
  | looked looked => exact .kept (looked.looked.objects ▸ here)
  | closed opened same =>
    rw [same] at here
    exact .kept here
  | unopened new same =>
    rw [same] at here
    exact piped_new new here
  | made new inserted nonneg same =>
    rw [same] at here
    exact piped_new new here
  | bound event opened socket parsed free looked same =>
    rw [same] at here
    exact .kept (looked.looked.objects ▸ here)
  | @connected found t p a near far around event parsed ends quiet family looked same =>
    rw [same] at here
    change update found.objects t _ s = _ at here
    by_cases own : s = t
    · rw [own, update_self] at here
      cases here
    · rw [update_of_ne own] at here
      exact .kept (looked.looked.objects ▸ here)
  | @sent found t u own sock dst fate pipe around admitted event opened datagram parsed owner
      target drawn looked same =>
    rw [same] at here
    change update found.objects u _ s = _ at here
    by_cases reached : s = u
    · subst reached
      rw [update_self] at here
      obtain rfl := Descriptor.datagram.inj here
      exact .sent admitted target
        ⟨event, ⟨t, own, opened, datagram⟩, ⟨around.stack, dst, owner, parsed⟩, rfl⟩ drawn
    · rw [update_of_ne reached] at here
      exact .kept (looked.looked.objects ▸ here)
  | @received found t sock p result memory now event opened datagram top ready looked same =>
    rw [same] at here
    change update found.objects t _ s = _ at here
    by_cases own : s = t
    · subst own
      rw [update_self] at here
      obtain rfl := Descriptor.datagram.inj here
      exact .received datagram event opened top ready rfl
    · rw [update_of_ne own] at here
      exact .kept (looked.looked.objects ▸ here)
  | computed same =>
    rw [same] at here
    exact .kept here

/-- All copies of a datagram have its bytes and its source. -/
theorem datagram_of_packets {fate : Fate} {now : I64} {data : List Byte} {source : Addr}
    {p : Packet} (member : p ∈ fate.packets now data source) : p.datagram = (data, source) := by
  cases fate with
  | dropped => cases member
  | queued latency replayCount replays =>
    rcases List.mem_cons.mp member with rfl | replayed
    · rfl
    · obtain ⟨l, -, rfl⟩ := List.mem_map.mp replayed
      rfl

/-- A packet in a pipe was there before, or the step sends it. -/
theorem waits_step {sim after : Sim} {e : SysEvent} {s : SocketId} {p : Packet}
    (effect : Effect admits sim e after) (waits : Waits s p after) :
    Waits s p sim ∨ (SentTo s p.bytes sim e ∧ p.source = default) := by
  obtain ⟨sock', here, queued⟩ := waits
  cases piped_step effect here with
  | kept same => exact Or.inl ⟨sock', same, queued⟩
  | opened fresh pipe =>
    rw [pipe] at queued
    cases Multiset.notMem_zero p queued
  | @sent sock fate around admitted was sender drawn =>
    rw [(send_spec drawn).2.2, Multiset.mem_add] at queued
    rcases queued with old | new
    · exact Or.inl ⟨sock, was, old⟩
    · obtain ⟨bytes, source⟩ := Prod.mk.inj (datagram_of_packets (Multiset.mem_coe.mp new))
      exact Or.inr ⟨bytes ▸ sender, source⟩
  | @received sock q result now was event opened top ready popped =>
    rw [popped] at queued
    exact Or.inl ⟨sock, was, Multiset.mem_of_mem_erase queued⟩

section Runs
variable {seed : U64} {netFaults : FaultSampling.FaultOptions}
variable {memories : ReplicaId → ChildMemory.Memory}

theorem waits_origin {past : List SysEvent} {sim : Sim} {s : SocketId} {p : Packet}
    (path : Path SysStep (Sim.start seed netFaults memories) past sim) (waits : Waits s p sim) :
    ∃ before e after u u', past = before ++ e :: after ∧
      Path SysStep (Sim.start seed netFaults memories) before u ∧ SysStep u e u' ∧
      Path SysStep u' after sim ∧ SentTo s p.bytes u e ∧ p.source = default := by
  refine path_origin path ?_ waits ?_
  · rintro ⟨sock, impossible, -⟩
    cases impossible
  · intro past t e u before last here
    have wf := (accounted_path (accounted_start seed netFaults memories) before).wellFormed
    exact waits_step (effect_of_step wf (sysStep_iff.mp last)) here

/-- Whatever a `recvfrom` receives was sent before it, by a `sendto` of some replica to an
address that led to the receiving socket at that time, with the bytes that the sender's
memory had at that time. The receiver is told no address. -/
theorem received_was_sent {past earlier later : List SysEvent} {sim : Sim} {r : ReplicaId}
    {args : Args} {p : Packet} {result : HookResult}
    (path : Path SysStep (Sim.start seed netFaults memories) past sim)
    (received : past = earlier ++ .recvfrom r args p result :: later) :
    ∃ s t t', Path SysStep (Sim.start seed netFaults memories) earlier t ∧
      SysStep t (.recvfrom r args p result) t' ∧ Path SysStep t' later sim ∧
      Opened t (.recvfrom r args p result) s ∧
      ∃ before e after u u', earlier = before ++ e :: after ∧
        Path SysStep (Sim.start seed netFaults memories) before u ∧ SysStep u e u' ∧
        Path SysStep u' after t ∧ SentTo s p.bytes u e ∧ p.source = default := by
  obtain ⟨t, t', front, taken, rest⟩ := path_event path received
  have receives := taken
  obtain ⟨now, s, sock, found, waits, top, -⟩ := receives
  obtain ⟨opened, datagram, -⟩ := recvfrom_opened waits
  exact ⟨s, t, t', front, taken, rest, opened, waits_origin front ⟨sock, datagram, top.1⟩⟩

end Runs

/-! A replica binds a socket to an address of its own and sends it two bytes. -/

def clean : FaultSampling.Host := ⟨fun _ rng => (false, rng.advance), fun _ => 0⟩

def quiet : Surroundings := ⟨clean, 1, 0, fun _ => 0⟩

def fresh : Sim := Sim.start 7 FaultSampling.defaultFaults fun _ a =>
  some (if a = 1000 then 2 else 0)

def namesFirst : Args := #v[0x40000000, 1000, 16, 0, 0, 0]

def withSocket : Sim := (sysSocket fresh 3 opensDatagram).2

def withAddress : Sim := (sysBind quiet withSocket 3 namesFirst).2

def withPacket : Sim :=
  ((sysSendto quiet withAddress 3 #v[0x40000000, 1000, 2, 0, 1000, 16]).getD
    (.passthrough, withAddress)).2

theorem withAddress_reached :
    Path SysStep fresh [.call 3 .socket opensDatagram (.handled 0x40000000),
      .call 3 .bind namesFirst (.handled 0)] withAddress := by
  have made : (sysSocket fresh 3 opensDatagram).1 = .handled 0x40000000 := by
    decide +kernel
  have bound : (sysBind quiet withSocket 3 namesFirst).1 =
      .handled 0 := by decide +kernel
  exact (Path.start.snoc ⟨quiet, congrArg some (Prod.ext made rfl)⟩).snoc
    ⟨quiet, congrArg some (Prod.ext bound rfl)⟩

theorem withPacket_sent :
    sysSendto quiet withAddress 3 #v[0x40000000, 1000, 2, 0, 1000, 16] =
      some (.handled 2, withPacket) := by
  have sent : (sysSendto quiet withAddress 3 #v[0x40000000, 1000, 2, 0, 1000, 16]).map
      Prod.fst = some (.handled 2) := by decide +kernel
  obtain ⟨⟨result, after⟩, ran, rfl⟩ := Option.map_eq_some_iff.mp sent
  rw [withPacket, ran]
  rfl

/-- The socket of the replica, whose packet has arrived. -/
theorem withPacket_waits :
    ∃ sock, withPacket.objects 0 = .datagram sock ∧
      sock.inbound.packets = {⟨0, [2, 0], default⟩} := by
  have waits : (withPacket.objects 0).asDatagram.map (fun sock => sock.inbound.packets) =
      some {⟨0, [2, 0], default⟩} := by decide +kernel
  obtain ⟨sock, datagram, packets⟩ := Option.map_eq_some_iff.mp waits
  exact ⟨sock, datagram_of_asDatagram datagram, packets⟩

theorem withPacket_received :
    ∃ result after, Receives 0 withPacket 3 #v[0x40000000, 0, 0, 0, 0, 0]
      ⟨0, [2, 0], default⟩ result after := by
  obtain ⟨sock, datagram, packets⟩ := withPacket_waits
  have opened : (withPacket.fdTables 3).live 0x40000000 = some 0 := by decide +kernel
  have simulated : isSimulated (((#v[0x40000000, 0, 0, 0, 0, 0] : Args).get 0).setWidth 32) =
      true := by
    decide
  have found := sysRecvfrom_eq simulated opened datagram
  refine ⟨_, _, 0, sock, _, found, ⟨?_, ?_⟩, by decide, rfl⟩
  · rw [packets]
    exact Multiset.mem_singleton_self _
  · rw [packets]
    intro q queued
    obtain rfl := Multiset.mem_singleton.mp queued
    decide

/-- The two bytes come back to the replica, so some `sendto` had them. -/
theorem received_was_sent_two :
    ∃ s u e u', SysStep u e u' ∧ SentTo s [2, 0] u e := by
  obtain ⟨result, after, received⟩ := withPacket_received
  have sent : SysStep withAddress
      (.call 3 .sendto #v[0x40000000, 1000, 2, 0, 1000, 16] (.handled 2)) withPacket :=
    ⟨quiet, withPacket_sent⟩
  have taken : SysStep withPacket
      (.recvfrom 3 #v[0x40000000, 0, 0, 0, 0, 0] ⟨0, [2, 0], default⟩ result) after :=
    ⟨0, received⟩
  obtain ⟨s, t, t', -, -, -, -, before, e, rest, u, u', -, -, step, -, from', -⟩ :=
    received_was_sent ((withAddress_reached.snoc sent).snoc taken) rfl
  exact ⟨s, u, e, u', step, from'⟩

/-! ## A descriptor and its pipe -/

/-- What the program behind a descriptor receives in a step. -/
def receipt (h : Handle) : SysEvent → Option Datagram
  | .recvfrom r args p _ => if (r, (args.get 0).setWidth 32) = h then some p.datagram else none
  | _ => none

/-- What a pipe hands out in a step. -/
def delivery : DatagramPipe.Event → Option Datagram
  | .send .. => none
  | .recv _ d => some d

/-- A system step leaves the pipe of an open descriptor, or is one step of it. -/
inductive Mirrors (host : FaultSampling.Host) (got : Option Datagram) (pipe after : Pipe) :
    Prop where
  | still (same : after = pipe) (nothing : got = none)
  | step {e : DatagramPipe.Event} (taken : PipeStep host pipe e after) (gives : delivery e = got)

theorem mirrors_recvfrom {host : FaultSampling.Host} {sim after : Sim} {r : ReplicaId}
    {args : Args} {p : Packet} {result : HookResult} {now : I64} (accounted : Accounted sim)
    (received : Receives now sim r args p result after) {h : Handle} {s : SocketId}
    (held : (slots sim).holds h = some s) {sock' : DatagramSocket}
    (here : after.objects s = .datagram sock') :
    ∃ sock, sim.objects s = .datagram sock ∧
      Mirrors host (receipt h (.recvfrom r args p result)) sock.inbound sock'.inbound := by
  obtain ⟨t, sock, found, waits, top, ready, done⟩ := received
  obtain ⟨opened, datagram, rfl⟩ := recvfrom_opened waits
  obtain ⟨-, rfl⟩ := Prod.mk.inj done
  change update sim.objects t _ s = _ at here
  by_cases own : (r, (args.get 0).setWidth 32) = h
  · subst own
    obtain rfl := Option.some.inj (held.symm.trans opened)
    rw [update_self] at here
    obtain rfl := Descriptor.datagram.inj here
    refine ⟨sock, datagram, .step (e := .recv now p.datagram) ⟨p, top, ready, rfl, rfl⟩ ?_⟩
    exact (if_pos rfl).symm
  · have other : s ≠ t := by
      rintro rfl
      exact own (accounted.exact.2 _ h s opened held)
    rw [update_of_ne other] at here
    exact ⟨sock', here, .still rfl (if_neg own)⟩

theorem mirrors_step {host : FaultSampling.Host} {sim after : Sim} {e : SysEvent}
    (accounted : Accounted sim) (taken : StepOn (· = host) sim e after) {h : Handle}
    {s : SocketId} (held : (slots sim).holds h = some s) {sock' : DatagramSocket}
    (here : after.objects s = .datagram sock') :
    ∃ sock, sim.objects s = .datagram sock ∧
      Mirrors host (receipt h e) sock.inbound sock'.inbound := by
  have made := accounted.wellFormed.opened _ _ _ held
  have piped := piped_step (effect_of_step accounted.wellFormed taken) here
  cases e with
  | recvfrom r args p result =>
    obtain ⟨now, received⟩ := taken
    exact mirrors_recvfrom accounted received held here
  | _ =>
    cases piped with
    | kept same => exact ⟨sock', same, .still rfl rfl⟩
    | opened fresh pipe => exact absurd fresh (Nat.ne_of_lt made)
    | @sent sock fate around admitted was sender drawn =>
      rw [admitted] at drawn
      exact ⟨sock, was, .step (e := .send around.now _ default fate) ⟨around.fuel, drawn⟩ rfl⟩
    | received was event => cases event

theorem queued_step {host : FaultSampling.Host} {pipe after : Pipe} {e : DatagramPipe.Event}
    (step : PipeStep host pipe e after) :
    after.queued + e.returned = pipe.queued + e.accepted := by
  cases e with
  | send now data source fate =>
    obtain ⟨fuel, sent⟩ := step
    exact (Multiset.add_zero _).trans (queued_send sent)
  | recv now d => exact (queued_recv step).trans (Multiset.add_zero _).symm

/-- What is queued at the end or was received is what was queued at first or accepted. -/
theorem conserved_path {host : FaultSampling.Host} {pipe after : Pipe}
    {events : List DatagramPipe.Event} (path : Path (PipeStep host) pipe events after) :
    after.queued + returned events = pipe.queued + accepted events := by
  induction path with
  | start => rfl
  | @snoc past t u e before last ih =>
    rw [returned_snoc, accepted_snoc, ← Multiset.add_assoc pipe.queued, ← ih,
      add_right_comm t.queued, ← queued_step last, Multiset.add_comm (returned past),
      Multiset.add_assoc]

theorem returned_eq (events : List DatagramPipe.Event) :
    returned events = (events.filterMap delivery : Multiset Datagram) := by
  induction events with
  | nil => rfl
  | cons e rest ih =>
    cases e with
    | send now data source fate =>
      simp only [returned, List.map_cons, List.sum_cons, Event.returned, Multiset.zero_add] at ih ⊢
      exact ih
    | recv now d =>
      simp only [returned, List.map_cons, List.sum_cons, Event.returned, delivery] at ih ⊢
      rw [ih]
      rfl

/-- From a state of a run on, as long as a descriptor keeps its datagram socket, what all
replicas do is a run of that socket's pipe: the program behind the descriptor receives in
order what the pipe hands out, and no step of another replica takes anything from it. -/
theorem descriptor_refines_pipe {seed : U64} {netFaults : FaultSampling.FaultOptions}
    {memories : ReplicaId → ChildMemory.Memory} {host : FaultSampling.Host}
    {earlier past : List SysEvent} {sim after : Sim} {h : Handle} {s : SocketId}
    {sock' : DatagramSocket}
    (reached : Path SysStep (Sim.start seed netFaults memories) earlier sim)
    (path : Path (StepOn (· = host)) sim past after)
    (opened : (sim.fdTables h.1).live h.2 = some s)
    (kept : (after.fdTables h.1).live h.2 = some s)
    (here : after.objects s = .datagram sock') :
    ∃ sock events, sim.objects s = .datagram sock ∧
      Path (PipeStep host) sock.inbound events sock'.inbound ∧
      events.filterMap delivery = past.filterMap (receipt h) ∧
      sock'.inbound.queued + (past.filterMap (receipt h) : Multiset Datagram) =
        sock.inbound.queued + accepted events := by
  have start := accounted_path (accounted_start seed netFaults memories) reached
  have made := start.wellFormed.opened _ _ _ opened
  have mirrored : ∃ sock events, sim.objects s = .datagram sock ∧
      Path (PipeStep host) sock.inbound events sock'.inbound ∧
      events.filterMap delivery = past.filterMap (receipt h) := by
    clear opened
    induction path generalizing sock' with
    | start => exact ⟨sock', [], here, .start, rfl⟩
    | @snoc past t u e before last ih =>
      have steps := path_mono StepOn.sysStep before
      have now := accounted_path start steps
      have effect := effect_of_step now.wellFormed last
      have old : s ∉ unmade t := Nat.not_le.mpr (made.trans_le (next_mono start steps))
      have held := held_step (slots_step now.wellFormed now.gone effect) old
        (show (slots u).holds h = some s from kept)
      obtain ⟨middle, was, mirrors⟩ := mirrors_step now last held here
      obtain ⟨sock, events, first, front, same⟩ := ih held was
      rw [filterMap_snoc, ← same]
      cases mirrors with
      | still unchanged nothing =>
        rw [unchanged, nothing]
        exact ⟨sock, events, first, front, (List.append_nil _).symm⟩
      | step taken gives =>
        refine ⟨sock, _, first, front.snoc taken, ?_⟩
        rw [filterMap_snoc, gives]
  obtain ⟨sock, events, first, run, same⟩ := mirrored
  refine ⟨sock, events, first, run, same, ?_⟩
  rw [← same, ← returned_eq]
  exact conserved_path run

/-- The packet is sent and received: the pipe saw both. -/
theorem descriptor_refines_pipe_two :
    ∃ (pipe pipe' : Pipe) (events : List DatagramPipe.Event),
      Path (PipeStep clean) pipe events pipe' ∧
        events.filterMap delivery = [([2, 0], default)] := by
  obtain ⟨result, after, received⟩ := withPacket_received
  have sent : StepOn (· = clean) withAddress
      (.call 3 .sendto #v[0x40000000, 1000, 2, 0, 1000, 16] (.handled 2)) withPacket :=
    ⟨quiet, rfl, withPacket_sent⟩
  have taken : StepOn (· = clean) withPacket
      (.recvfrom 3 #v[0x40000000, 0, 0, 0, 0, 0] ⟨0, [2, 0], default⟩ result) after :=
    ⟨0, received⟩
  have opened : (withAddress.fdTables 3).live 0x40000000 = some 0 := by decide +kernel
  obtain ⟨t, sock, found, waits, -, -, done⟩ := received
  obtain ⟨held, -, looked⟩ := recvfrom_opened waits
  obtain ⟨-, same⟩ := Prod.mk.inj done
  have numbers : (slots after).holds = (slots withPacket).holds :=
    holds_looked (e := .recvfrom 3 #v[0x40000000, 0, 0, 0, 0, 0] ⟨0, [2, 0], default⟩ result)
      (by rw [same, looked]; rfl)
  have known : (withPacket.fdTables 3).live 0x40000000 = some 0 := by decide +kernel
  have kept : (after.fdTables 3).live 0x40000000 = some 0 :=
    (congrFun numbers (3, 0x40000000)).trans known
  obtain rfl := Option.some.inj (held.symm.trans known)
  have here : after.objects 0 = .datagram (sock.pop ⟨0, [2, 0], default⟩) := by
    rw [same]
    exact update_self 0 _ found.objects
  obtain ⟨first, events, -, run, same, -⟩ := descriptor_refines_pipe (h := (3, 0x40000000))
    withAddress_reached ((Path.start.snoc sent).snoc taken) opened kept here
  exact ⟨first.inbound, _, events, run, same⟩

end PacketOrigins
