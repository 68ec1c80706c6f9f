import Redstone.PacketOrigins

/-!
# What addresses and peers lead to

An address leads to a socket exactly as long as the descriptor that bound it is open with
that socket. The peer of a stream socket is a stream socket of its family that a `connect`
named, and no socket ever listens.
-/

namespace SocketLinks

open MachineWords SocketAddr Network FdTable ParseAddr
open SocketSeeds (ReplicaId)
open TraceLoop (Args HookResult)
open Syscalls HookOutcomes HookEffects SoleOwners SocketLifetimes PacketOrigins StepRuns Function

variable {admits : FaultSampling.Host → Prop}

/-! ## Addresses -/

/-- A `bind` that succeeds: on an open socket of its caller, to this address, which led
nowhere before. -/
structure BoundTo (a : Addr) (s : SocketId) (sim : Sim) (e : SysEvent) : Prop where
  event : e = .call (caller e) .bind (argsOf e) (.handled 0)
  opened : Opened sim e s
  parsed : ∃ stack, parseAddr (sim.readMemory (caller e)) stack ((argsOf e).get 1)
    ((argsOf e).get 2).toNat = .ok a
  free : sim.net.resolve a = none

/-- What a step does to the network. -/
inductive NetEffect (sim : Sim) (e : SysEvent) (net : Net) : Prop where
  | asked (owners : net.resolve = sim.net.resolve)
      (destroyed : net.destroyed = sim.net.destroyed)
  | destroyed {s : SocketId} (same : net = sim.net.destroy s)
  | bound {a : Addr} {s : SocketId} (target : BoundTo a s sim e)
      (owners : net.resolve = update sim.net.resolve a (sim.net.lock (some s)))
      (destroyed : net.destroyed = sim.net.destroyed)

theorem net_effect {sim after : Sim} {e : SysEvent} (effect : Effect admits sim e after) :
    NetEffect sim e after.net := by
  have asked : ∀ {found : Sim}, Looked sim e found → after.net = found.net →
      NetEffect sim e after.net := by
    intro found looked net
    rw [net]
    exact .asked looked.looked.owners looked.steady.destroyed
  cases effect with
  | idle same =>
    rw [same]
    exact .asked rfl rfl
  | looked looked => exact asked looked rfl
  | closed opened same =>
    rw [same]
    exact .destroyed rfl
  | unopened new same =>
    rw [same]
    exact .destroyed rfl
  | @made d rng fd table new inserted nonneg same =>
    rw [same, overwritten]
    cases (tableOf sim e).live fd with
    | none => exact .asked rfl rfl
    | some old => exact .destroyed rfl
  | @bound found s a around event opened socket parsed free looked same =>
    obtain ⟨-, owners, destroyed⟩ :=
      Net.bind_accepted s ((congrFun looked.looked.owners a).trans free)
    rw [same]
    refine .bound ⟨event, opened, ⟨around.stack, parsed⟩, free⟩ ?_
      (destroyed.trans looked.steady.destroyed)
    rw [owners, looked.looked.owners, Net.lock, Net.lock, looked.steady.destroyed]
  | connected event parsed ends quiet family looked same =>
    exact asked looked (by rw [same]; rfl)
  | sent admitted event opened datagram parsed owner target drawn looked same =>
    exact asked looked (by rw [same]; rfl)
  | received event opened datagram top ready looked same =>
    exact asked looked (by rw [same]; rfl)
  | computed same =>
    rw [same]
    exact .asked rfl rfl

theorem resolve_destroy {n : Net} {s t : SocketId} {a : Addr} :
    (n.destroy s).resolve a = some t ↔ n.resolve a = some t ∧ t ≠ s := by
  rw [Net.destroy_spec, Option.filter_eq_some_iff, decide_eq_true_iff]

/-- An address leads where it led before, or the step binds it. -/
theorem NetEffect.origin {sim : Sim} {e : SysEvent} {net : Net} (effect : NetEffect sim e net)
    {a : Addr} {s : SocketId} (owned : net.resolve a = some s) :
    sim.net.resolve a = some s ∨ BoundTo a s sim e := by
  cases effect with
  | asked owners => exact Or.inl (owners ▸ owned)
  | destroyed same =>
    rw [same] at owned
    exact Or.inl (resolve_destroy.mp owned).1
  | @bound b t target owners =>
    rw [owners] at owned
    by_cases here : a = b
    · rw [here, update_self, Net.lock, Option.filter_eq_some_iff] at owned
      obtain rfl := Option.some.inj owned.1
      exact Or.inr (here ▸ target)
    · rw [update_of_ne here] at owned
      exact Or.inl owned

/-- An address keeps leading to an object until the object goes away. -/
theorem NetEffect.keeps {sim : Sim} {e : SysEvent} {net : Net} (effect : NetEffect sim e net)
    {a : Addr} {s : SocketId} (owned : sim.net.resolve a = some s) (there : s ∉ net.destroyed) :
    net.resolve a = some s := by
  cases effect with
  | asked owners => rw [owners, owned]
  | destroyed same =>
    rw [same] at there ⊢
    exact resolve_destroy.mpr ⟨owned, fun gone => there (Finset.mem_insert.mpr (Or.inl gone))⟩
  | @bound b t target owners =>
    have other : a ≠ b := by
      rintro rfl
      rw [target.free] at owned
      cases owned
    rw [owners, update_of_ne other, owned]

theorem NetEffect.gone {sim : Sim} {e : SysEvent} {net : Net} (effect : NetEffect sim e net)
    {s : SocketId} (gone : s ∈ sim.net.destroyed) : s ∈ net.destroyed := by
  cases effect with
  | asked owners destroyed => rwa [destroyed]
  | destroyed same =>
    rw [same]
    exact Finset.mem_insert_of_mem gone
  | bound target owners destroyed => rwa [destroyed]

section Runs
variable {seed : U64} {netFaults : FaultSampling.FaultOptions}
variable {memories : ReplicaId → ChildMemory.Memory}

end Runs

/-- A `connect` that succeeds: from an open stream socket of its caller to an address that
leads to a stream socket of the same family. -/
structure ConnectedTo (s p : SocketId) (sim : Sim) (e : SysEvent) : Prop where
  event : e = .call (caller e) .connect (argsOf e) (.handled 0)
  leads : ∃ stack a near far, parseAddr (sim.readMemory (caller e)) stack ((argsOf e).get 1)
    ((argsOf e).get 2).toNat = .ok a ∧ StreamEnds sim (caller e) (fdOf e) a s p near far ∧
      near.af = far.af

/-- How a step leaves a stream socket. -/
inductive Streamed (sim : Sim) (e : SysEvent) (s : SocketId) (after : StreamSocket) : Prop where
  | kept (same : sim.objects s = .stream after)
  | opened (fresh : s = sim.nextObject) (unlinked : after.peer = none)
      (quiet : after.listening = false)
  | connected {sock : StreamSocket} {p : SocketId} (was : sim.objects s = .stream sock)
      (target : ConnectedTo s p sim e) (same : after = { sock with peer := some p })

theorem streamed_new {sim : Sim} {e : SysEvent} {s : SocketId} {d : Descriptor}
    {rng : Generators.Xoshiro} {after : StreamSocket} (new : New sim d rng)
    (here : update sim.objects sim.nextObject d s = .stream after) : Streamed sim e s after := by
  by_cases fresh : s = sim.nextObject
  · rw [fresh, update_self] at here
    cases new with
    | stream af =>
      obtain rfl := Descriptor.stream.inj here
      exact .opened fresh rfl rfl
    | datagram af => cases here
  · rw [update_of_ne fresh] at here
    exact .kept here

theorem streamed_step {sim after : Sim} {e : SysEvent} (effect : Effect admits sim e after)
    {s : SocketId} {sock' : StreamSocket} (here : after.objects s = .stream sock') :
    Streamed sim e s sock' := by
  cases effect with
  | idle same => exact .kept (same ▸ here)
  | looked looked => exact .kept (looked.looked.objects ▸ here)
  | closed opened same =>
    rw [same] at here
    exact .kept here
  | unopened new same =>
    rw [same] at here
    exact streamed_new new here
  | made new inserted nonneg same =>
    rw [same] at here
    exact streamed_new new here
  | bound event opened socket parsed free looked same =>
    rw [same] at here
    exact .kept (looked.looked.objects ▸ here)
  | @connected found t p a near far around event parsed ends quiet family looked same =>
    rw [same] at here
    change update found.objects t _ s = _ at here
    by_cases own : s = t
    · subst own
      rw [update_self] at here
      exact .connected ends.isCaller ⟨event, around.stack, a, near, far, parsed, ends, family⟩
        (Descriptor.stream.inj here).symm
    · rw [update_of_ne own] at here
      exact .kept (looked.looked.objects ▸ here)
  | @sent found t u own sock dst fate pipe around admitted event opened datagram parsed owner
      target drawn looked same =>
    rw [same] at here
    change update found.objects u _ s = _ at here
    by_cases reached : s = u
    · rw [reached, update_self] at here
      cases here
    · rw [update_of_ne reached] at here
      exact .kept (looked.looked.objects ▸ here)
  | @received found t sock p result memory now event opened datagram top ready looked same =>
    rw [same] at here
    change update found.objects t _ s = _ at here
    by_cases own : s = t
    · rw [own, update_self] at here
      cases here
    · rw [update_of_ne own] at here
      exact .kept (looked.looked.objects ▸ here)
  | computed same =>
    rw [same] at here
    exact .kept here

/-- No class or family changes. -/
theorem stream_step {sim after : Sim} {e : SysEvent} (effect : Effect admits sim e after)
    {s : SocketId} {sock : StreamSocket} (made : s < sim.nextObject)
    (here : sim.objects s = .stream sock) :
    ∃ sock', after.objects s = .stream sock' ∧ sock'.af = sock.af := by
  rcases objects_step effect with ⟨-, same | ⟨t, d, reshapes, same⟩⟩ | ⟨-, d, rng, -, same⟩
  · exact ⟨sock, same ▸ here, rfl⟩
  · by_cases own : s = t
    · rw [← own, here] at reshapes
      cases reshapes with
      | connect _ p => exact ⟨{ sock with peer := some p }, by rw [same, own, update_self], rfl⟩
    · exact ⟨sock, by rw [same, update_of_ne own, here], rfl⟩
  · exact ⟨sock, by rw [same, update_of_ne (Nat.ne_of_lt made), here], rfl⟩

theorem stream_path {sim after : Sim} {past : List SysEvent} (accounted : Accounted sim)
    (path : Path SysStep sim past after) {s : SocketId} {sock : StreamSocket}
    (made : s < sim.nextObject) (here : sim.objects s = .stream sock) :
    ∃ sock', after.objects s = .stream sock' ∧ sock'.af = sock.af := by
  induction path with
  | start => exact ⟨sock, here, rfl⟩
  | snoc before last ih =>
    obtain ⟨middle, there, family⟩ := ih
    have wf := (accounted_path accounted before).wellFormed
    obtain ⟨sock', now, family'⟩ := stream_step (effect_of_step wf (sysStep_iff.mp last))
      (made.trans_le (next_mono accounted before)) there
    exact ⟨sock', now, family'.trans family⟩

section Runs
variable {seed : U64} {netFaults : FaultSampling.FaultOptions}
variable {memories : ReplicaId → ChildMemory.Memory}

theorem never_listens {past : List SysEvent} {sim : Sim}
    (path : Path SysStep (Sim.start seed netFaults memories) past sim) :
    ∀ s sock, sim.objects s = .stream sock → sock.listening = false := by
  induction path with
  | start =>
    intro s sock impossible
    cases impossible
  | snoc before last ih =>
    intro s sock here
    have wf := (accounted_path (accounted_start seed netFaults memories) before).wellFormed
    cases streamed_step (effect_of_step wf (sysStep_iff.mp last)) here with
    | kept same => exact ih s sock same
    | opened fresh unlinked quiet => exact quiet
    | @connected near p was target same =>
      rw [same]
      exact ih s near was

/-- In every run the peer of a stream socket is a stream socket of its family, to which an
address led when a `connect` through the descriptor of the first named it. -/
theorem peer_was_connected {past : List SysEvent} {sim : Sim} {s p : SocketId}
    {sock : StreamSocket}
    (path : Path SysStep (Sim.start seed netFaults memories) past sim)
    (here : sim.objects s = .stream sock) (linked : sock.peer = some p) :
    (∃ far, sim.objects p = .stream far ∧ far.af = sock.af) ∧
      ∃ before e rest u u', past = before ++ e :: rest ∧
        Path SysStep (Sim.start seed netFaults memories) before u ∧ SysStep u e u' ∧
        Path SysStep u' rest sim ∧ ConnectedTo s p u e := by
  have start := accounted_start seed netFaults memories
  have origin : ∃ before e rest u u', past = before ++ e :: rest ∧
      Path SysStep (Sim.start seed netFaults memories) before u ∧ SysStep u e u' ∧
      Path SysStep u' rest sim ∧ ConnectedTo s p u e := by
    refine path_origin (F := fun t => ∃ near, t.objects s = .stream near ∧ near.peer = some p)
      path ?_ ⟨sock, here, linked⟩ ?_
    · rintro ⟨near, impossible, -⟩
      cases impossible
    · rintro past t e u before last ⟨near, now, peer⟩
      have wf := (accounted_path start before).wellFormed
      cases streamed_step (effect_of_step wf (sysStep_iff.mp last)) now with
      | kept same => exact Or.inl ⟨near, same, peer⟩
      | opened fresh unlinked =>
        rw [unlinked] at peer
        cases peer
      | connected was target same =>
        rw [same] at peer
        obtain rfl := Option.some.inj peer
        exact Or.inr target
  obtain ⟨before, e, rest, u, u', cut, front, step, back, target⟩ := origin
  refine ⟨?_, before, e, rest, u, u', cut, front, step, back, target⟩
  obtain ⟨stack, a, near, far, -, ends, family⟩ := target.leads
  have accounted := accounted_path start front
  have wf := accounted.wellFormed
  have whole := path_cons step back
  obtain ⟨sock', now, kept⟩ := stream_path accounted whole (wf.opened _ _ _ ends.opened)
    ends.isCaller
  obtain ⟨far', there, kept'⟩ := stream_path accounted whole (wf.bound _ _ ends.bound)
    ends.isCallee
  obtain rfl := Descriptor.stream.inj (here.symm.trans now)
  exact ⟨far', there, kept'.trans (family.symm.trans kept.symm)⟩

/-! A replica with two stream sockets, of which the second is bound and the first connects. -/

def withStream : Sim := (sysSocket fresh 3 #v[2, 1, 0, 0, 0, 0]).2

def withStreams : Sim := (sysSocket withStream 3 #v[2, 1, 0, 0, 0, 0]).2

def withBound : Sim := (sysBind quiet withStreams 3 #v[0x40000001, 1000, 16, 0, 0, 0]).2

def withPeer : Sim := (sysConnect quiet withBound 3 namesFirst).2

theorem withBound_reached :
    Path SysStep fresh [.call 3 .socket #v[2, 1, 0, 0, 0, 0] (.handled 0x40000000),
      .call 3 .socket #v[2, 1, 0, 0, 0, 0] (.handled 0x40000001),
      .call 3 .bind #v[0x40000001, 1000, 16, 0, 0, 0] (.handled 0)] withBound := by
  have first : (sysSocket fresh 3 #v[2, 1, 0, 0, 0, 0]).1 = .handled 0x40000000 := by
    decide +kernel
  have second : (sysSocket withStream 3 #v[2, 1, 0, 0, 0, 0]).1 = .handled 0x40000001 := by
    decide +kernel
  have bound : (sysBind quiet withStreams 3 #v[0x40000001, 1000, 16, 0, 0, 0]).1 =
      .handled 0 := by decide +kernel
  exact ((Path.start.snoc ⟨quiet, congrArg some (Prod.ext first rfl)⟩).snoc
    ⟨quiet, congrArg some (Prod.ext second rfl)⟩).snoc
    ⟨quiet, congrArg some (Prod.ext bound rfl)⟩

/-- The peer is the second socket, so a `connect` named it. -/
theorem peer_was_connected_two : ∃ u e u', SysStep u e u' ∧ ConnectedTo 0 1 u e := by
  have connected : (sysConnect quiet withBound 3 namesFirst).1 =
      .handled 0 := by decide +kernel
  have step : SysStep withBound (.call 3 .connect namesFirst (.handled 0))
      withPeer := ⟨quiet, congrArg some (Prod.ext connected rfl)⟩
  have linked : (withPeer.objects 0).asStream.map StreamSocket.peer = some (some 1) := by
    decide +kernel
  obtain ⟨sock, stream, peer⟩ := Option.map_eq_some_iff.mp linked
  obtain ⟨-, before, e, rest, u, u', -, -, taken, -, target⟩ :=
    peer_was_connected (withBound_reached.snoc step) (stream_of_asStream stream) peer
  exact ⟨u, e, u', taken, target⟩

/-- In every reachable state no socket listens, and a `connect` on a simulated descriptor to an
address that parses succeeds exactly between two stream sockets of one family. -/
theorem connects_iff {past : List SysEvent} {sim : Sim} {around : Surroundings}
    {r : ReplicaId} {args : Args} {a : Addr}
    (path : Path SysStep (Sim.start seed netFaults memories) past sim)
    (simulated : isSimulated ((args.get 0).setWidth 32) = true)
    (parsed : parseAddr (sim.readMemory r) around.stack (args.get 1) (args.get 2).toNat = .ok a) :
    (∀ s sock, sim.objects s = .stream sock → sock.listening = false) ∧
      ((sysConnect around sim r args).1 = .handled 0 ↔
        ∃ s p near far, StreamEnds sim r ((args.get 0).setWidth 32) a s p near far ∧
          near.af = far.af) := by
  have quiet := never_listens path
  refine ⟨quiet, ?_⟩
  have real : ¬isSimulated ((args.get 0).setWidth 32) = false := by
    rw [simulated]
    decide
  have ended := sysConnect_ends real parsed
  generalize (sysConnect around sim r args).1 = result at ended ⊢
  generalize (sysConnect around sim r args).2 = after at ended
  cases ended with
  | refused errno negative looked listens =>
    refine iff_of_false ?_ ?_
    · intro zero
      rw [HookResult.handled.inj zero] at negative
      exact absurd negative (by decide)
    · rintro ⟨s, p, near, far, ends, -⟩
      have busy := listens ends
      rw [quiet p far ends.isCallee] at busy
      cases busy
  | @called found s p near far ends silent looked =>
    rcases connect_cases near p far.af with ⟨negative, -, apart⟩ | ⟨done, -, -, family⟩
    · refine iff_of_false ?_ ?_
      · intro zero
        rw [HookResult.handled.inj zero] at negative
        exact absurd negative (by decide)
      · rintro ⟨s', p', near', far', ends', family⟩
        obtain ⟨rfl, rfl, rfl, rfl⟩ := ends.unique ends'
        exact apart ⟨quiet s near ends.isCaller, family⟩
    · rw [done]
      exact iff_of_true rfl ⟨s, p, near, far, ends, family⟩

end Runs

theorem connects_iff_two :
    ∃ s p near far, StreamEnds withBound 3 0x40000000 default s p near far ∧
      near.af = far.af := by
  have connected : (sysConnect quiet withBound 3 namesFirst).1 =
      .handled 0 := by decide +kernel
  have parsed : parseAddr (withBound.readMemory 3) quiet.stack 1000 16 = .ok default := by
    decide +kernel
  exact (connects_iff withBound_reached (by decide) parsed).2.mp connected

end SocketLinks
