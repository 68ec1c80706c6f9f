import Redstone.HookOutcomes

/-!
# No generator dies

The state of zeros is a generator that outputs zero forever. Every generator of the
simulation begins in a state that is not zero, because it is seeded from one that is not,
and every hook only moves it along its own stream.
-/

namespace LiveGenerators

open MachineWords Generators FaultSampling Network DatagramPipe FdTable ParseAddr
open TraceLoop (Args HookResult)
open SocketSeeds (ReplicaId AddressFamily family SOCK_STREAM SOCK_DGRAM)
open ChildMemory (Memory)
open Syscalls HookOutcomes StepRuns Function

/-- The state of a generator some draws later. -/
def Later (a b : Xoshiro) : Prop := ∃ n, b = Xoshiro.advance^[n] a

theorem Later.refl (a : Xoshiro) : Later a a := ⟨0, rfl⟩

theorem Later.draw {a b : Xoshiro} (later : Later a b) : Later a b.advance := by
  obtain ⟨n, rfl⟩ := later
  exact ⟨n + 1, (iterate_succ_apply' Xoshiro.advance n a).symm⟩

theorem Later.trans {a b c : Xoshiro} (first : Later a b) (second : Later b c) : Later a c := by
  obtain ⟨n, rfl⟩ := first
  obtain ⟨m, rfl⟩ := second
  exact ⟨m + n, (iterate_add_apply Xoshiro.advance m n a).symm⟩

theorem Later.live {a b : Xoshiro} (later : Later a b) (live : a ≠ Xoshiro.zero) :
    b ≠ Xoshiro.zero := by
  obtain ⟨n, rfl⟩ := later
  exact fun dead => live ((Xoshiro.iterate_eq_zero_iff n a).mp dead)

/-- The distribution of the standard library gets at the generator by draws only. -/
def OnlyDraws (host : Host) : Prop := ∀ p rng, Later rng (host.bernoulli p rng).2

/-! ## The draws of a send -/

theorem later_latency {o : FaultOptions} {rng : Xoshiro} {delay : I64 × Xoshiro}
    (drawn : o.latency rng = some delay) : Later rng delay.2 := by
  rw [FaultOptions.latency, genRange, sampleUniformLong, sampleUniform,
    Option.ite_none_left_eq_some] at drawn
  rw [← Option.some.inj drawn.2]
  exact (Later.refl rng).draw

theorem later_replayCount {o : FaultOptions} {host : Host} {fuel : Nat} :
    ∀ {rng : Xoshiro} {n : Nat} {counted : Nat × Xoshiro},
      o.replayCount host fuel rng n = some counted → Later rng counted.2 := by
  induction fuel with
  | zero =>
    intro rng n counted ended
    cases ended
  | succ fuel ih =>
    intro rng n counted ended
    have drawn : (genBool host rng o.pReplay).2 = rng.advance := rfl
    rw [FaultOptions.replayCount] at ended
    cases again : (genBool host rng o.pReplay).1 with
    | true =>
      simp only [again, if_true, drawn] at ended
      exact (Later.refl rng).draw.trans (ih ended)
    | false =>
      simp only [again, Bool.false_eq_true, if_false, drawn] at ended
      rw [← Option.some.inj ended]
      exact (Later.refl rng).draw

theorem later_replayLatencies {o : FaultOptions} {count : Nat} :
    ∀ {rng after : Xoshiro} {latencies : List I64},
      replayLatencies o count rng = some (latencies, after) → Later rng after := by
  induction count with
  | zero =>
    intro rng after latencies drawn
    cases drawn
    exact Later.refl rng
  | succ count ih =>
    intro rng after latencies drawn
    simp only [replayLatencies, Option.bind_eq_bind, Option.bind_eq_some_iff] at drawn
    obtain ⟨delay, delayed, others, rest, result⟩ := drawn
    rw [← (Prod.mk.inj (Option.some.inj result)).2]
    exact (later_latency delayed).trans (ih rest)

/-- A send moves the generator of its pipe along the pipe's stream. -/
theorem later_send {pipe after : Pipe} {host : Host} {fuel : Nat} {now : I64}
    {data : List Byte} {source : SocketAddr.Addr} {fate : Fate} (draws : OnlyDraws host)
    (sent : pipe.send host fuel now data source = some (fate, after)) :
    Later pipe.rng after.rng := by
  have chance := draws pipe.options.pDrop pipe.rng
  rcases drawFate_cases (send_spec sent).1 with ⟨drop, -⟩ |
    ⟨kept, delay, counted, replays, drop, delayed, count, delays, -⟩
  · rw [FaultOptions.shouldDrop] at drop
    rw [drop] at chance
    exact chance
  · rw [FaultOptions.shouldDrop] at drop
    rw [drop] at chance
    exact ((chance.trans (later_latency delayed)).trans (later_replayCount count)).trans
      (later_replayLatencies delays)

/-! ## What a hook does to the generators -/

/-- The simulator's generator and those of the pipes move along their streams, and a pipe
that was not there is seeded from the simulator's generator. -/
structure Streams (sim after : Sim) : Prop where
  simulator : Later sim.rng after.rng
  pipes : ∀ s sock, after.objects s = .datagram sock →
    (∃ old, sim.objects s = .datagram old ∧ Later old.inbound.rng sock.inbound.rng) ∨
      sock.inbound.rng = (seedFrom Xoshiro.next sim.rng).1

theorem streams_of_same {sim after : Sim} (rng : after.rng = sim.rng)
    (objects : after.objects = sim.objects) : Streams sim after where
  simulator := rng ▸ Later.refl _
  pipes := by
    intro s sock here
    exact Or.inl ⟨sock, objects ▸ here, Later.refl _⟩

theorem lookedUp_streams {sim after : Sim} {r : ReplicaId} {fd : CInt}
    (looked : LookedUp sim r fd after) : Streams sim after :=
  streams_of_same looked.rng looked.objects

/-- One object is replaced: by none with a pipe, or by one whose pipe is later. -/
theorem streams_setObject {sim after : Sim} (rng : after.rng = sim.rng) {s : SocketId}
    {d : Descriptor} (objects : after.objects = update sim.objects s d)
    (replaces : ∀ sock, d = .datagram sock →
      ∃ old, sim.objects s = .datagram old ∧ Later old.inbound.rng sock.inbound.rng) :
    Streams sim after where
  simulator := rng ▸ Later.refl _
  pipes := by
    intro t sock here
    rw [objects] at here
    by_cases same : t = s
    · rw [same, update_self] at here
      rw [same]
      exact Or.inl (replaces sock here)
    · rw [update_of_ne same] at here
      exact Or.inl ⟨sock, here, Later.refl _⟩

theorem read_streams (sim : Sim) (r : ReplicaId) (args : Args) :
    Streams sim (sysRead sim r args).2 := by
  by_cases real : isSimulated ((args.get 0).setWidth 32) = false
  · simp only [sysRead, if_pos real]
    exact streams_of_same rfl rfl
  · simp only [sysRead, if_neg real]
    split <;> exact streams_of_same rfl rfl

theorem write_streams (sim : Sim) (r : ReplicaId) (args : Args) :
    Streams sim (sysWrite sim r args).2 := by
  by_cases real : isSimulated ((args.get 0).setWidth 32) = false
  · simp only [sysWrite, if_pos real]
    exact streams_of_same rfl rfl
  · simp only [sysWrite, if_neg real]
    split <;> exact streams_of_same rfl rfl

theorem close_streams (sim : Sim) (r : ReplicaId) (args : Args) :
    Streams sim (sysClose sim r args).2 := by
  by_cases real : isSimulated ((args.get 0).setWidth 32) = false
  · simp only [sysClose, if_pos real]
    exact streams_of_same rfl rfl
  · simp only [sysClose, if_neg real]
    split <;> exact streams_of_same rfl rfl

theorem bind_streams (around : Surroundings) (sim : Sim) (r : ReplicaId) (args : Args) :
    Streams sim (sysBind around sim r args).2 := by
  by_cases real : isSimulated ((args.get 0).setWidth 32) = false
  · simp only [sysBind, if_pos real]
    exact streams_of_same rfl rfl
  · simp only [sysBind, if_neg real]
    split
    · exact streams_of_same rfl rfl
    · split
      · exact streams_of_same rfl rfl
      · split
        · exact streams_of_same rfl rfl
        · split <;> exact streams_of_same rfl rfl

/-- A connect replaces a stream socket, if anything. -/
theorem connect_streams (around : Surroundings) (sim : Sim) (r : ReplicaId) (args : Args) :
    Streams sim (sysConnect around sim r args).2 := by
  by_cases real : isSimulated ((args.get 0).setWidth 32) = false
  · simp only [sysConnect, if_pos real]
    exact streams_of_same rfl rfl
  · cases parsed : parseAddr (sim.readMemory r) around.stack (args.get 1) (args.get 2).toNat with
    | error e =>
      simp only [sysConnect, if_neg real, parsed]
      exact streams_of_same rfl rfl
    | ok addr =>
      have ended := sysConnect_ends real parsed
      generalize (sysConnect around sim r args).1 = result at ended
      generalize (sysConnect around sim r args).2 = after at ended ⊢
      cases ended with
      | refused errno negative looked => exact lookedUp_streams looked
      | called ends quiet looked =>
        refine streams_setObject looked.rng (congrArg (update · _ _) looked.objects) ?_
        intro sock impossible
        cases impossible

/-- The constructor of a datagram socket draws the seed of its pipe. -/
theorem makeSocket_streams {sim made : Sim} {af : AddressFamily} {type : CInt} {sock : SocketId}
    (making : makeSocket sim af type = some (sock, made)) : Streams sim made := by
  by_cases stream : type = SOCK_STREAM
  · rw [makeSocket, if_pos stream] at making
    obtain ⟨-, rfl⟩ := Prod.mk.inj (Option.some.inj making)
    refine streams_setObject rfl rfl ?_
    intro sock impossible
    cases impossible
  · by_cases datagram : type = SOCK_DGRAM
    · rw [makeSocket, if_neg stream, if_pos datagram] at making
      obtain ⟨-, same⟩ := Prod.mk.inj (Option.some.inj making)
      have rng : made.rng = Xoshiro.advance^[4] sim.rng := by
        rw [← same]
        rfl
      have objects : made.objects = update sim.objects sim.nextObject
          (.datagram ⟨af, opened sim.netFaults (seedFrom Xoshiro.next sim.rng).1⟩) := by
        rw [← same]
        rfl
      refine ⟨⟨4, rng⟩, ?_⟩
      intro s sock here
      rw [objects] at here
      by_cases new : s = sim.nextObject
      · rw [new, update_self] at here
        rw [← Descriptor.datagram.inj here]
        exact Or.inr rfl
      · rw [update_of_ne new] at here
        exact Or.inl ⟨sock, here, Later.refl _⟩
    · rw [makeSocket, if_neg stream, if_neg datagram] at making
      cases making

theorem socket_streams (sim : Sim) (r : ReplicaId) (args : Args) :
    Streams sim (sysSocket sim r args).2 := by
  cases known : family ((args.get 0).setWidth 32) with
  | none =>
    simp only [sysSocket, known]
    exact streams_of_same rfl rfl
  | some af =>
    cases making : makeSocket sim af ((args.get 1).setWidth 32) with
    | none =>
      simp only [sysSocket, known, making]
      exact streams_of_same rfl rfl
    | some pair =>
      obtain ⟨simulator, pipes⟩ := makeSocket_streams making
      simp only [sysSocket, known, making]
      split
      · exact ⟨simulator, pipes⟩
      · split <;> exact ⟨simulator, pipes⟩

/-- A send draws from the pipe of the socket that the address resolves to. -/
theorem sendTo_streams {around : Surroundings} {sim after : Sim} {r : ReplicaId}
    {buffer bytes : U64} {dst : SocketAddr.Addr} {result : HookResult}
    (draws : OnlyDraws around.host)
    (returned : sendTo around sim r buffer bytes dst = some (result, after)) :
    Streams sim after := by
  simp only [sendTo] at returned
  split at returned
  · obtain ⟨-, rfl⟩ := Prod.mk.inj (Option.some.inj returned)
    exact streams_of_same rfl rfl
  · split at returned
    · cases returned
    · split at returned
      · cases returned
      · rename_i kind
        split at returned
        · cases returned
        · rename_i sent
          obtain ⟨-, rfl⟩ := Prod.mk.inj (Option.some.inj returned)
          refine streams_setObject rfl rfl ?_
          intro sock same
          rw [← Descriptor.datagram.inj same]
          exact ⟨_, datagram_of_asDatagram kind, later_send draws sent⟩

theorem sendto_streams {around : Surroundings} {sim after : Sim} {r : ReplicaId} {args : Args}
    {result : HookResult} (draws : OnlyDraws around.host)
    (returned : sysSendto around sim r args = some (result, after)) : Streams sim after := by
  by_cases real : isSimulated ((args.get 0).setWidth 32) = false
  · simp only [sysSendto, if_pos real] at returned
    obtain ⟨-, rfl⟩ := Prod.mk.inj (Option.some.inj returned)
    exact streams_of_same rfl rfl
  · simp only [sysSendto, if_neg real] at returned
    split at returned
    · obtain ⟨-, rfl⟩ := Prod.mk.inj (Option.some.inj returned)
      exact streams_of_same rfl rfl
    · split at returned
      · obtain ⟨-, rfl⟩ := Prod.mk.inj (Option.some.inj returned)
        exact streams_of_same rfl rfl
      · split at returned
        · obtain ⟨-, rfl⟩ := Prod.mk.inj (Option.some.inj returned)
          exact streams_of_same rfl rfl
        · obtain ⟨simulator, pipes⟩ := sendTo_streams draws returned
          exact ⟨simulator, pipes⟩

/-- A receive pops a packet and leaves the pipe's generator. -/
theorem receives_streams {now : I64} {sim after : Sim} {r : ReplicaId} {args : Args} {p : Packet}
    {result : HookResult} (received : Receives now sim r args p result after) :
    Streams sim after := by
  obtain ⟨s, sock, found, looked, -, -, done⟩ := received
  obtain ⟨-, rfl⟩ := Prod.mk.inj done
  have kind : sim.objects s = .datagram sock := by
    by_cases real : isSimulated ((args.get 0).setWidth 32) = false
    · simp only [sysRecvfrom, if_pos real] at looked
      cases looked
    · simp only [sysRecvfrom, if_neg real] at looked
      split at looked
      · cases looked
      · split at looked
        · cases looked
        · rename_i kind
          obtain ⟨same, -⟩ := Prod.mk.inj looked
          obtain ⟨rfl, rfl⟩ := Prod.mk.inj (Except.ok.inj same)
          exact datagram_of_asDatagram kind
  have frame : found.rng = sim.rng ∧ found.objects = sim.objects := by
    have kept := sysRecvfrom_looked sim r args
    rw [looked] at kept
    rcases kept with same | kept
    · exact ⟨congrArg Sim.rng same, congrArg Sim.objects same⟩
    · exact ⟨kept.rng, kept.objects⟩
  refine streams_setObject frame.1 (congrArg (update · s _) frame.2) ?_
  intro popped same
  rw [← Descriptor.datagram.inj same]
  exact ⟨sock, kind, Later.refl _⟩

/-! ## Every run -/

/-- The steps of the hooks, on hosts whose distribution only draws. -/
def DrawStep (sim : Sim) : SysEvent → Sim → Prop
  | .call r call args result, after =>
    ∃ around, OnlyDraws around.host ∧ syscall around sim r args call = some (result, after)
  | e, after => SysStep sim e after

theorem streams_step {sim after : Sim} {e : SysEvent} (taken : DrawStep sim e after) :
    Streams sim after := by
  cases e with
  | call r call args result =>
    obtain ⟨around, draws, ran⟩ := taken
    cases call with
    | read =>
      obtain ⟨-, rfl⟩ := Prod.mk.inj (Option.some.inj ran)
      exact read_streams sim r args
    | write =>
      obtain ⟨-, rfl⟩ := Prod.mk.inj (Option.some.inj ran)
      exact write_streams sim r args
    | close =>
      obtain ⟨-, rfl⟩ := Prod.mk.inj (Option.some.inj ran)
      exact close_streams sim r args
    | socket =>
      obtain ⟨-, rfl⟩ := Prod.mk.inj (Option.some.inj ran)
      exact socket_streams sim r args
    | sendto => exact sendto_streams draws ran
    | connect =>
      obtain ⟨-, rfl⟩ := Prod.mk.inj (Option.some.inj ran)
      exact connect_streams around sim r args
    | bind =>
      obtain ⟨-, rfl⟩ := Prod.mk.inj (Option.some.inj ran)
      exact bind_streams around sim r args
  | recvfrom r args p result =>
    obtain ⟨now, received⟩ := taken
    exact receives_streams received
  | recvfromFailed r args result =>
    have kept := sysRecvfrom_looked sim r args
    rw [show sysRecvfrom sim r args = (.error result, after) from taken] at kept
    rcases kept with same | looked
    · exact streams_of_same (congrArg Sim.rng same) (congrArg Sim.objects same)
    · exact lookedUp_streams looked
  | compute r memory =>
    rw [show after = _ from taken]
    exact streams_of_same rfl rfl

/-- Neither the simulator's generator nor that of a pipe is dead. -/
structure Live (sim : Sim) : Prop where
  simulator : sim.rng ≠ Xoshiro.zero
  pipes : ∀ s sock, sim.objects s = .datagram sock → sock.inbound.rng ≠ Xoshiro.zero

theorem Live.step {sim after : Sim} (live : Live sim) (streams : Streams sim after) :
    Live after where
  simulator := streams.simulator.live live.simulator
  pipes := by
    intro s sock here
    rcases streams.pipes s sock here with ⟨old, was, later⟩ | seeded
    · exact later.live (live.pipes s old was)
    · rw [seeded]
      exact fun dead => live.simulator ((Xoshiro.seedFrom_eq_zero_iff _).mp dead)

/-- A simulator with its generator in some state, before its first socket. -/
def fresh (rng : Xoshiro) (netFaults : FaultOptions) (memories : ReplicaId → Memory) : Sim :=
  { Sim.start 0 netFaults memories with rng }

theorem live_fresh {rng : Xoshiro} (live : rng ≠ Xoshiro.zero) (netFaults : FaultOptions)
    (memories : ReplicaId → Memory) : Live (fresh rng netFaults memories) where
  simulator := live
  pipes := by
    intro s sock impossible
    cases impossible

theorem live_path {sim after : Sim} {past : List SysEvent} (live : Live sim)
    (path : Path DrawStep sim past after) : Live after :=
  history_invariant (fun _ s => Live s) live
    (fun _ _ _ _ kept taken => kept.step (streams_step taken)) path

/-- Seeding one generator from another is injective and makes a dead one of a dead one
only. So from every state of the simulator's generator but zero, whatever calls follow,
no pipe's generator is ever dead. -/
theorem generators_live :
    Injective (fun x : Xoshiro => (seedFrom Xoshiro.next x).1) ∧
      (∀ x : Xoshiro, (seedFrom Xoshiro.next x).1 = Xoshiro.zero ↔ x = Xoshiro.zero) ∧
      ∀ rng netFaults memories past sim, rng ≠ Xoshiro.zero →
        Path DrawStep (fresh rng netFaults memories) past sim → Live sim :=
  ⟨Xoshiro.seedFrom_injective, Xoshiro.seedFrom_eq_zero_iff,
    fun _ netFaults memories _ _ live path => live_path (live_fresh live netFaults memories) path⟩

/-- Two replicas open a datagram socket each. -/
theorem generators_live_two_sockets :
    ∃ past sim, past.length = 2 ∧
      Path DrawStep (fresh ⟨0, 0, 0, 1⟩ defaultFaults fun _ _ => none) past sim ∧ Live sim := by
  let host : Host := ⟨fun _ rng => (false, rng.advance), fun _ => 0⟩
  let around : Surroundings := ⟨host, 0, 0, fun _ => 0⟩
  let args : Args := #v[2, 2, 0, 0, 0, 0]
  have draws : OnlyDraws host := fun _ rng => (Later.refl rng).draw
  have opens : ∀ (sim : Sim) (r : ReplicaId),
      DrawStep sim (.call r .socket args (sysSocket sim r args).1) (sysSocket sim r args).2 :=
    fun _ _ => ⟨around, draws, rfl⟩
  have path := (Path.start.snoc (opens (fresh ⟨0, 0, 0, 1⟩ defaultFaults fun _ _ => none) 0)).snoc
    (opens _ 1)
  exact ⟨_, _, rfl, path, generators_live.2.2 _ _ _ _ _ (by decide) path⟩

end LiveGenerators
