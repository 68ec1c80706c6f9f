import Mathlib.Algebra.BigOperators.Group.List.Basic
import Mathlib.Algebra.Order.Group.Multiset
import Redstone.FaultSampling
import Redstone.SocketAddr
import Redstone.StepRuns

/-!
# The datagram pipe

`packets_` is a priority queue, known only as a bag with some maximal element on top.
A send and a recv each run under the lock that orders them, so a run is a sequence of
whole sends and recvs; a recv that waits changes nothing and is not an event. Clock
readings are arbitrary here, in particular they may be non-decreasing.
-/

namespace DatagramPipe

open MachineWords Generators FaultSampling SocketAddr StepRuns

/-- The bytes and the sender's address: what a program sees of a packet. -/
abbrev Datagram := List Byte × Addr

structure Packet where
  arrival : I64
  bytes : List Byte
  source : Addr
  deriving DecidableEq

namespace Packet

def datagram (p : Packet) : Datagram := (p.bytes, p.source)

/-- `operator<` is flipped, so that the earliest packet is a greatest one. -/
def Less (lhs rhs : Packet) : Prop := rhs.arrival.toInt < lhs.arrival.toInt

instance (lhs rhs : Packet) : Decidable (lhs.Less rhs) :=
  inferInstanceAs (Decidable (rhs.arrival.toInt < lhs.arrival.toInt))

end Packet

structure Pipe where
  packets : Multiset Packet
  options : FaultOptions
  rng : Xoshiro
  deriving DecidableEq

def opened (options : FaultOptions) (rng : Xoshiro) : Pipe := ⟨0, options, rng⟩

/-- What the draws of one send decide. -/
inductive Fate where
  | dropped
  | queued (latency : I64) (replayCount : Nat) (replays : List I64)
  deriving DecidableEq

/-- The draws of the loop over `replays`, one latency for each copy. -/
def replayLatencies (o : FaultOptions) : (left : Nat) → Xoshiro → Option (List I64 × Xoshiro)
  | 0, rng => some ([], rng)
  | left + 1, rng => do
    let (latency, rng) ← o.latency rng
    let (rest, rng) ← replayLatencies o left rng
    some (latency :: rest, rng)

namespace Pipe

def send (pipe : Pipe) (host : Host) (fuel : Nat) (now : I64) (data : List Byte)
    (source : Addr) : Option (Fate × Pipe) :=
  let (drop, rng) := pipe.options.shouldDrop host pipe.rng
  if drop then some (.dropped, { pipe with rng })
  else do
    let (latency, rng) ← pipe.options.latency rng
    let p : Packet := ⟨now + latency, data, source⟩
    let (replayCount, rng) ← pipe.options.replayCount host fuel rng 0
    let (latencies, rng) ← replayLatencies pipe.options replayCount rng
    let replays := latencies.map fun l => { p with arrival := now + l * 2 }
    some (.queued latency replayCount latencies,
      { pipe with packets := p ::ₘ (pipe.packets + (replays : Multiset Packet)), rng })

/-- What `top` may return. -/
def IsTop (pipe : Pipe) (p : Packet) : Prop :=
  p ∈ pipe.packets ∧ ∀ q ∈ pipe.packets, ¬p.Less q

instance (pipe : Pipe) (p : Packet) : Decidable (pipe.IsTop p) :=
  inferInstanceAs (Decidable (p ∈ pipe.packets ∧ ∀ q ∈ pipe.packets, ¬p.Less q))

/-- A recv that returns: the top packet is not still on its way, and is popped. -/
def Recv (pipe : Pipe) (now : I64) (d : Datagram) (after : Pipe) : Prop :=
  ∃ p, pipe.IsTop p ∧ ¬now.toInt < p.arrival.toInt ∧ d = p.datagram ∧
    after = { pipe with packets := pipe.packets.erase p }

end Pipe

inductive Event where
  | send (now : I64) (data : List Byte) (source : Addr) (fate : Fate)
  | recv (now : I64) (d : Datagram)

/-- A send that returns, with some fuel, or a recv that returns. -/
def PipeStep (host : Host) (pipe : Pipe) : Event → Pipe → Prop
  | .send now data source fate, after =>
    ∃ fuel, pipe.send host fuel now data source = some (fate, after)
  | .recv now d, after => pipe.Recv now d after

/-! ## The draws of a send -/

/-- The draws alone: they depend on the options and the generator only. -/
def drawFate (o : FaultOptions) (host : Host) (fuel : Nat) (rng : Xoshiro) :
    Option (Fate × Xoshiro) :=
  let (drop, rng) := o.shouldDrop host rng
  if drop then some (.dropped, rng)
  else do
    let (latency, rng) ← o.latency rng
    let (replayCount, rng) ← o.replayCount host fuel rng 0
    let (latencies, rng) ← replayLatencies o replayCount rng
    some (.queued latency replayCount latencies, rng)

/-- The packets a fate adds to the queue. -/
def Fate.packets (now : I64) (data : List Byte) (source : Addr) : Fate → List Packet
  | .dropped => []
  | .queued latency _ replays =>
    ⟨now + latency, data, source⟩ :: replays.map fun l => ⟨now + l * 2, data, source⟩

/-- Arrivals of the packets a send queues, relative to its clock reading. -/
def Fate.delays : Fate → List I64
  | .dropped => []
  | .queued latency _ replays => latency :: replays.map fun l => l * 2

theorem relative_arrivals (fate : Fate) (now : I64) (data : List Byte) (source : Addr) :
    (fate.packets now data source).map (fun p => p.arrival - now) = fate.delays := by
  cases fate with
  | dropped => rfl
  | queued latency replayCount replays =>
    have shift : ∀ l : I64, now + l - now = l := fun l => by
      rw [BitVec.add_comm, BitVec.add_sub_cancel]
    simp only [Fate.packets, Fate.delays, List.map_cons, List.map_map, Function.comp_def, shift]

/-- A send draws its fate and queues the packets of that fate. -/
theorem send_eq (pipe : Pipe) (host : Host) (fuel : Nat) (now : I64) (data : List Byte)
    (source : Addr) :
    pipe.send host fuel now data source =
      (drawFate pipe.options host fuel pipe.rng).map fun (fate, rng) =>
        (fate, { pipe with packets := pipe.packets + fate.packets now data source, rng }) := by
  rcases drop : pipe.options.shouldDrop host pipe.rng with ⟨dropped, rng⟩
  cases dropped with
  | true => simp [Pipe.send, drawFate, drop, Fate.packets]
  | false =>
    cases delay : pipe.options.latency rng with
    | none => simp [Pipe.send, drawFate, drop, delay]
    | some first =>
      cases count : pipe.options.replayCount host fuel first.2 0 with
      | none => simp [Pipe.send, drawFate, drop, delay, count]
      | some counted =>
        cases delays : replayLatencies pipe.options counted.1 counted.2 with
        | none => simp [Pipe.send, drawFate, drop, delay, count, delays]
        | some drawn =>
          simp [Pipe.send, drawFate, drop, delay, count, delays, Fate.packets,
            ← Multiset.cons_coe]

theorem send_spec {pipe after : Pipe} {host : Host} {fuel : Nat} {now : I64}
    {data : List Byte} {source : Addr} {fate : Fate}
    (sent : pipe.send host fuel now data source = some (fate, after)) :
    drawFate pipe.options host fuel pipe.rng = some (fate, after.rng) ∧
      after.options = pipe.options ∧
      after.packets = pipe.packets + (fate.packets now data source : Multiset Packet) := by
  rw [send_eq, Option.map_eq_some_iff] at sent
  obtain ⟨⟨drawn, rng⟩, draws, result⟩ := sent
  obtain ⟨rfl, rfl⟩ := Prod.mk.inj result
  exact ⟨draws, rfl, rfl⟩

theorem length_replayLatencies {o : FaultOptions} {count : Nat} :
    ∀ {rng after : Xoshiro} {latencies : List I64},
      replayLatencies o count rng = some (latencies, after) → latencies.length = count := by
  induction count with
  | zero =>
    intro rng after latencies drawn
    cases drawn
    rfl
  | succ count ih =>
    intro rng after latencies drawn
    simp only [replayLatencies, Option.bind_eq_bind, Option.bind_eq_some_iff] at drawn
    obtain ⟨_, _, others, rest, result⟩ := drawn
    rw [← (Prod.mk.inj (Option.some.inj result)).1, List.length_cons, ih rest]

/-- A queued fate has one latency for each replay. -/
def Fate.Complete : Fate → Prop
  | .dropped => True
  | .queued _ replayCount replays => replays.length = replayCount

/-- What the draws of a send can be: a drop, or a latency, a replay count and that many
latencies more. -/
theorem drawFate_cases {o : FaultOptions} {host : Host} {fuel : Nat} {rng after : Xoshiro}
    {fate : Fate} (drawn : drawFate o host fuel rng = some (fate, after)) :
    (o.shouldDrop host rng = (true, after) ∧ fate = .dropped) ∨
      ∃ kept delay counted replays, o.shouldDrop host rng = (false, kept) ∧
        o.latency kept = some delay ∧ o.replayCount host fuel delay.2 0 = some counted ∧
        replayLatencies o counted.1 counted.2 = some (replays, after) ∧
        fate = .queued delay.1 counted.1 replays := by
  rcases drop : o.shouldDrop host rng with ⟨dropped, kept⟩
  cases dropped with
  | true =>
    simp only [drawFate, drop, if_true, Option.some.injEq, Prod.mk.injEq] at drawn
    obtain ⟨rfl, rfl⟩ := drawn
    exact Or.inl ⟨rfl, rfl⟩
  | false =>
    simp only [drawFate, drop, Bool.false_eq_true, if_false, Option.bind_eq_bind,
      Option.bind_eq_some_iff] at drawn
    obtain ⟨delay, delayed, counted, count, ⟨replays, rest⟩, delays, result⟩ := drawn
    obtain ⟨rfl, rfl⟩ := Prod.mk.inj (Option.some.inj result)
    exact Or.inr ⟨kept, delay, counted, replays, rfl, delayed, count, delays, rfl⟩

theorem drawFate_complete {o : FaultOptions} {host : Host} {fuel : Nat} {rng after : Xoshiro}
    {fate : Fate} (drawn : drawFate o host fuel rng = some (fate, after)) : fate.Complete := by
  rcases drawFate_cases drawn with ⟨_, rfl⟩ | ⟨_, _, _, _, _, _, _, delays, rfl⟩
  · trivial
  · exact length_replayLatencies delays

/-! ## Conservation -/

namespace Event

/-- The copies a send owes: none if dropped, else the datagram and its replays. -/
def accepted : Event → Multiset Datagram
  | .send _ data source (.queued _ replayCount _) =>
    Multiset.replicate (1 + replayCount) (data, source)
  | _ => 0

def returned : Event → Multiset Datagram
  | .recv _ d => {d}
  | _ => 0

end Event

def accepted (past : List Event) : Multiset Datagram := (past.map Event.accepted).sum

def returned (past : List Event) : Multiset Datagram := (past.map Event.returned).sum

/-- The datagrams in the queue. -/
def Pipe.queued (pipe : Pipe) : Multiset Datagram := pipe.packets.map Packet.datagram

theorem accepted_snoc (past : List Event) (e : Event) :
    accepted (past ++ [e]) = accepted past + e.accepted := by
  simp [accepted]

theorem returned_snoc (past : List Event) (e : Event) :
    returned (past ++ [e]) = returned past + e.returned := by
  simp [returned]

theorem Fate.datagrams {fate : Fate} (complete : fate.Complete) (now : I64) (data : List Byte)
    (source : Addr) :
    (fate.packets now data source : Multiset Packet).map Packet.datagram =
      (Event.send now data source fate).accepted := by
  cases fate with
  | dropped => rfl
  | queued latency replayCount replays =>
    have length : replays.length = replayCount := complete
    have same : (fun l : I64 => Packet.datagram ⟨now + l * 2, data, source⟩) =
        Function.const I64 (data, source) := rfl
    simp only [Fate.packets, Event.accepted, Multiset.map_coe, List.map_cons, List.map_map]
    rw [← length, Nat.add_comm, Multiset.replicate_succ, ← Multiset.coe_replicate,
      Multiset.cons_coe, Function.comp_def, same, List.map_const]
    rfl

/-- A send queues exactly what it owes. -/
theorem queued_send {pipe after : Pipe} {host : Host} {fuel : Nat} {now : I64}
    {data : List Byte} {source : Addr} {fate : Fate}
    (sent : pipe.send host fuel now data source = some (fate, after)) :
    after.queued = pipe.queued + (Event.send now data source fate).accepted := by
  obtain ⟨draws, _, packets⟩ := send_spec sent
  rw [Pipe.queued, packets, Multiset.map_add, Fate.datagrams (drawFate_complete draws)]
  rfl

/-- A recv takes out exactly what it returns. -/
theorem queued_recv {pipe after : Pipe} {now : I64} {d : Datagram}
    (received : pipe.Recv now d after) : after.queued + {d} = pipe.queued := by
  obtain ⟨p, ⟨member, _⟩, _, rfl, rfl⟩ := received
  rw [Pipe.queued, Pipe.queued, ← Multiset.map_singleton, ← Multiset.map_add,
    Multiset.add_comm, Multiset.singleton_add, Multiset.cons_erase member]

/-- What is queued or was returned is what the sends so far owe. -/
def Conserves (past : List Event) (pipe : Pipe) : Prop :=
  pipe.queued + returned past = accepted past

theorem conserves_step {host : Host} {past : List Event} {pipe after : Pipe} {e : Event}
    (conserves : Conserves past pipe) (step : PipeStep host pipe e after) :
    Conserves (past ++ [e]) after := by
  rw [Conserves] at conserves ⊢
  rw [returned_snoc, accepted_snoc, ← conserves]
  cases e with
  | send now data source fate =>
    obtain ⟨fuel, sent⟩ := step
    rw [queued_send sent]
    simp only [Event.returned, Multiset.add_zero]
    exact add_right_comm _ _ _
  | recv now d =>
    rw [← queued_recv step]
    simp only [Event.accepted, Event.returned, Multiset.add_zero]
    rw [Multiset.add_comm (returned past), Multiset.add_assoc]

/-- In every reachable state nothing is lost, invented or corrupted, and a recv returns
a packet that has arrived and that no queued packet precedes. -/
theorem pipe_conserves {host : Host} {options : FaultOptions} {rng : Xoshiro}
    {past : List Event} {pipe : Pipe}
    (path : Path (PipeStep host) (opened options rng) past pipe) :
    pipe.queued + returned past = accepted past ∧
      ∀ now d after, PipeStep host pipe (.recv now d) after →
        ∃ p ∈ pipe.packets, d = p.datagram ∧ p.arrival.toInt ≤ now.toInt ∧
          (∀ q ∈ pipe.packets, p.arrival.toInt ≤ q.arrival.toInt) ∧
          after.packets = pipe.packets.erase p := by
  constructor
  · exact history_invariant Conserves (show Conserves [] (opened options rng) from rfl)
      (fun _ _ _ _ => conserves_step) path
  · rintro now d after ⟨p, ⟨member, top⟩, ready, rfl, rfl⟩
    refine ⟨p, member, rfl, Int.not_lt.mp ready, ?_, rfl⟩
    intro q queued
    exact Int.not_lt.mp (top q queued)

/-- One datagram sent and received without faults: the queue is empty again. -/
theorem pipe_conserves_one_datagram :
    ∃ (host : Host) (past : List Event) (pipe : Pipe),
      Path (PipeStep host) (opened defaultFaults ⟨1, 2, 3, 4⟩) past pipe ∧
        pipe.queued + returned past = {([7], default)} := by
  let host : Host := ⟨fun _ rng => (false, rng.advance), fun _ => 0⟩
  let packet : Packet := ⟨0, [7], default⟩
  let rng : Xoshiro := Xoshiro.advance^[3] ⟨1, 2, 3, 4⟩
  have sent : PipeStep host (opened defaultFaults ⟨1, 2, 3, 4⟩)
      (.send 0 [7] default (.queued 0 0 [])) ⟨{packet}, defaultFaults, rng⟩ :=
    ⟨1, by decide +kernel⟩
  have received : PipeStep host ⟨{packet}, defaultFaults, rng⟩
      (.recv 0 ([7], default)) ⟨0, defaultFaults, rng⟩ :=
    ⟨packet, by decide +kernel⟩
  have path := (Path.start.snoc sent).snoc received
  exact ⟨host, _, _, path, (pipe_conserves path).1⟩

end DatagramPipe
