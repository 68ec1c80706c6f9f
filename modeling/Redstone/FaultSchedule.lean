import Redstone.DatagramPipe
import Redstone.Network

/-!
# Fault schedules of datagram sockets

Many sockets share the network, and any of them may be sent to, read from or asked for
in any order. What happens to the datagrams delivered to one socket is a path of draws
from that socket's generator, whatever else the run contains.
-/

namespace FaultSchedule

open MachineWords Generators FaultSampling SocketAddr Network DatagramPipe StepRuns

/-- The network, and the inbound pipes of the sockets that are datagram sockets. -/
structure World where
  net : Net
  inbound : SocketId → Option Pipe

namespace World

def setPipe (w : World) (s : SocketId) (pipe : Pipe) : World :=
  { w with inbound := Function.update w.inbound s (some pipe) }

/-- `send_to` up to its call of `deliver`: a negative result, or the socket to deliver
the bytes to. The callback reads the program's buffer, and may fail. -/
def sendTo (w : World) (dst : Addr) (readData : Except CInt (List Byte)) :
    Except I64 (SocketId × List Byte) × World :=
  let (sock, net) := w.net.get dst
  let w := { w with net }
  match sock with
  | none => (.error (failure 64 EHOSTUNREACH), w)
  | some s =>
    match w.inbound s with
    | none => (.error (failure 64 ECONNREFUSED), w)
    | some _ =>
      match readData with
      | .error res => (.error (res.signExtend 64), w)
      | .ok buf => (.ok (s, buf), w)

/-- `deliver` on a datagram socket: the send of its inbound pipe. -/
def Deliver (host : Host) (w : World) (s : SocketId) (now : I64) (data : List Byte)
    (source : Addr) (fate : Fate) (after : World) : Prop :=
  ∃ pipe pipe', w.inbound s = some pipe ∧
    PipeStep host pipe (.send now data source fate) pipe' ∧ after = w.setPipe s pipe'

end World

inductive WorldEvent where
  | deliver (s : SocketId) (now : I64) (data : List Byte) (source : Addr) (fate : Fate)
  | sendTo (dst : Addr) (s : SocketId) (now : I64) (data : List Byte) (fate : Fate)
  | sendToFailed (dst : Addr) (readData : Except CInt (List Byte)) (value : I64)
  | recv (s : SocketId) (now : I64) (d : Datagram)
  | network (op : NetOp) (reply : NetReply)

/-- A delivery, a `send_to` that delivers or fails, a recv, or a call on the network.
`send_to` passes on a value-initialised source address. -/
def WorldStep (host : Host) (w : World) : WorldEvent → World → Prop
  | .deliver s now data source fate, after => w.Deliver host s now data source fate after
  | .sendTo dst s now data fate, after =>
    ∃ found, w.sendTo dst (.ok data) = (.ok (s, data), found) ∧
      found.Deliver host s now data default fate after
  | .sendToFailed dst readData value, after => w.sendTo dst readData = (.error value, after)
  | .recv s now d, after =>
    ∃ pipe pipe', w.inbound s = some pipe ∧ PipeStep host pipe (.recv now d) pipe' ∧
      after = w.setPipe s pipe'
  | .network op reply, after =>
    (Network.step w.net op).1 = reply ∧ after = { w with net := (Network.step w.net op).2 }

/-- The fate of a datagram delivered to `s`, if the event delivers one. -/
def fateFor (s : SocketId) : WorldEvent → Option Fate
  | .deliver t _ _ _ fate => if t = s then some fate else none
  | .sendTo _ t _ _ fate => if t = s then some fate else none
  | _ => none

/-- The fates of the datagrams delivered to `s`, in order. -/
def fates (s : SocketId) (past : List WorldEvent) : List Fate := past.filterMap (fateFor s)

/-! ## One socket on its own -/

/-- The draws of one send that returns. -/
def Draw (o : FaultOptions) (host : Host) (rng : Xoshiro) (fate : Fate) (after : Xoshiro) :
    Prop :=
  ∃ fuel, drawFate o host fuel rng = some (fate, after)

/-- The draws of a send depend on nothing but the options and the generator. -/
theorem draw_deterministic (o : FaultOptions) (host : Host) : Deterministic (Draw o host) := by
  rintro rng fate after fate' after' ⟨fuel, first⟩ ⟨fuel', second⟩
  rcases drawFate_cases first with
    ⟨drop, rfl⟩ | ⟨kept, delay, counted, replays, keep, delayed, count, delays, rfl⟩
  · rcases drawFate_cases second with ⟨drop', rfl⟩ | ⟨_, _, _, _, keep', _⟩
    · exact ⟨rfl, (Prod.mk.inj (drop.symm.trans drop')).2⟩
    · cases (Prod.mk.inj (drop.symm.trans keep')).1
  · rcases drawFate_cases second with
      ⟨drop', _⟩ | ⟨kept', delay', counted', replays', keep', delayed', count', delays', rfl⟩
    · cases (Prod.mk.inj (keep.symm.trans drop')).1
    · obtain rfl : kept = kept' := (Prod.mk.inj (keep.symm.trans keep')).2
      obtain rfl : delay = delay' := Option.some.inj (delayed.symm.trans delayed')
      obtain rfl : counted = counted' := FaultOptions.replayCount_unique count count'
      obtain ⟨rfl, rfl⟩ := Prod.mk.inj (Option.some.inj (delays.symm.trans delays'))
      exact ⟨rfl, rfl⟩

theorem inbound_setPipe_self (w : World) (s : SocketId) (pipe : Pipe) :
    (w.setPipe s pipe).inbound s = some pipe := by
  simp only [World.setPipe, Function.update_self]

theorem inbound_setPipe_ne {w : World} {s t : SocketId} (other : t ≠ s) (pipe : Pipe) :
    (w.setPipe s pipe).inbound t = w.inbound t := by
  simp only [World.setPipe, Function.update_of_ne other]

/-- The frame of `send_to` up to `deliver`: it asks the network about its destination, and
touches no pipe. -/
theorem world_sendTo (w : World) (dst : Addr) (readData : Except CInt (List Byte)) :
    (w.sendTo dst readData).2 = { w with net := (w.net.get dst).2 } := by
  rcases found : w.net.get dst with ⟨sock, net⟩
  cases sock with
  | none => simp only [World.sendTo, found]
  | some s =>
    cases kind : w.inbound s with
    | none => simp only [World.sendTo, found, kind]
    | some pipe => cases readData <;> simp only [World.sendTo, found, kind]

/-- The pipe of `s` was reached from `start` by the draws of `s`'s own deliveries. -/
def Follows (host : Host) (s : SocketId) (start : Pipe) (past : List WorldEvent) (w : World) :
    Prop :=
  ∃ pipe, w.inbound s = some pipe ∧ pipe.options = start.options ∧
    Path (Draw start.options host) start.rng (fates s past) pipe.rng

theorem fates_snoc (s : SocketId) (past : List WorldEvent) (e : WorldEvent) :
    fates s (past ++ [e]) = fates s past ++ (fateFor s e).toList :=
  filterMap_snoc (fateFor s) past e

theorem fates_snoc_none {s : SocketId} (past : List WorldEvent) {e : WorldEvent}
    (idle : fateFor s e = none) : fates s (past ++ [e]) = fates s past := by
  rw [fates_snoc, idle, Option.toList_none, List.append_nil]

theorem follows_idle {host : Host} {s : SocketId} {start : Pipe} {past : List WorldEvent}
    {w after : World} {e : WorldEvent} (follows : Follows host s start past w)
    (idle : fateFor s e = none) (same : after.inbound s = w.inbound s) :
    Follows host s start (past ++ [e]) after := by
  rw [Follows, fates_snoc_none past idle, same]
  exact follows

theorem follows_deliver {host : Host} {s t : SocketId} {start : Pipe}
    {past : List WorldEvent} {w after : World} {e : WorldEvent} {now : I64}
    {data : List Byte} {source : Addr} {fate : Fate} (follows : Follows host s start past w)
    (delivered : w.Deliver host t now data source fate after)
    (labelled : fateFor s e = if t = s then some fate else none) :
    Follows host s start (past ++ [e]) after := by
  obtain ⟨pipe, pipe', found, ⟨fuel, sent⟩, rfl⟩ := delivered
  by_cases own : t = s
  · subst own
    obtain ⟨pipe₀, here, options, path⟩ := follows
    obtain rfl : pipe = pipe₀ := Option.some.inj (found.symm.trans here)
    obtain ⟨draws, kept, _⟩ := send_spec sent
    rw [options] at draws
    refine ⟨pipe', inbound_setPipe_self w t pipe', kept.trans options, ?_⟩
    rw [fates_snoc, labelled, if_pos rfl]
    exact path.snoc ⟨fuel, draws⟩
  · rw [if_neg own] at labelled
    exact follows_idle follows labelled (inbound_setPipe_ne (Ne.symm own) pipe')

/-- Every step of the world draws from a pipe only to deliver to it. -/
theorem follows_step {host : Host} {s : SocketId} {start : Pipe} {past : List WorldEvent}
    {w after : World} {e : WorldEvent} (follows : Follows host s start past w)
    (step : WorldStep host w e after) : Follows host s start (past ++ [e]) after := by
  cases e with
  | deliver t now data source fate => exact follows_deliver follows step rfl
  | sendTo dst t now data fate =>
    obtain ⟨found, resolved, delivered⟩ := step
    have frame := (congrArg Prod.snd resolved).symm.trans (world_sendTo w dst (.ok data))
    refine follows_deliver (w := found) ?_ delivered rfl
    rw [Follows, show found = _ from frame]
    exact follows
  | sendToFailed dst readData value =>
    have failed : w.sendTo dst readData = (.error value, after) := step
    have frame := (congrArg Prod.snd failed).symm.trans (world_sendTo w dst readData)
    refine follows_idle follows rfl ?_
    rw [show after = _ from frame]
  | recv t now d =>
    obtain ⟨pipe, pipe', found, ⟨p, _, _, _, rfl⟩, rfl⟩ := step
    by_cases own : t = s
    · subst own
      obtain ⟨pipe₀, here, options, path⟩ := follows
      obtain rfl : pipe = pipe₀ := Option.some.inj (found.symm.trans here)
      refine ⟨_, inbound_setPipe_self w t _, options, ?_⟩
      rw [fates_snoc_none past rfl]
      exact path
    · exact follows_idle follows rfl (inbound_setPipe_ne (Ne.symm own) _)
  | network op reply =>
    obtain ⟨_, rfl⟩ := step
    exact follows_idle follows rfl rfl

theorem follows_path {host : Host} {s : SocketId} {start : Pipe} {w after : World}
    {past : List WorldEvent} (opens : w.inbound s = some start)
    (path : Path (WorldStep host) w past after) : Follows host s start past after :=
  history_invariant (Follows host s start) ⟨start, opens, rfl, .start⟩
    (fun _ _ _ _ => follows_step) path

/-- The fate of the `i`-th datagram delivered to a socket, and when its packets arrive
relative to the send, follow from the pipe's options and seed alone. -/
theorem schedule_agrees {host : Host} {w v w' v' : World} {s t : SocketId} {p q : Pipe}
    {past past' : List WorldEvent} (opens : w.inbound s = some p)
    (opens' : v.inbound t = some q) (sameRng : p.rng = q.rng)
    (sameOptions : p.options = q.options) (path : Path (WorldStep host) w past w')
    (path' : Path (WorldStep host) v past' v') (i : Nat) (f g : Fate)
    (here : (fates s past)[i]? = some f) (there : (fates t past')[i]? = some g) :
    f = g ∧ ∀ now now' data data' source source',
      (f.packets now data source).map (fun p => p.arrival - now) =
        (g.packets now' data' source').map (fun p => p.arrival - now') := by
  obtain ⟨_, _, _, draws⟩ := follows_path opens path
  obtain ⟨_, _, _, draws'⟩ := follows_path opens' path'
  rw [← sameRng, ← sameOptions] at draws'
  have same : f = g := events_agree (draw_deterministic p.options host) draws draws' here there
  refine ⟨same, ?_⟩
  intro now now' data data' source source'
  rw [relative_arrivals, relative_arrivals, same]

theorem deliver_of_draw {host : Host} {w : World} {s : SocketId} {pipe : Pipe} {fuel : Nat}
    {fate : Fate} (now : I64) (data : List Byte) (source : Addr)
    (opens : w.inbound s = some pipe)
    (drawn : (drawFate pipe.options host fuel pipe.rng).map Prod.fst = some fate) :
    ∃ after, w.Deliver host s now data source fate after := by
  obtain ⟨⟨_, rng⟩, draws, rfl⟩ := Option.map_eq_some_iff.mp drawn
  exact ⟨_, pipe, _, opens, ⟨fuel, by rw [send_eq, draws]; rfl⟩, rfl⟩

/-- Two runs with different bytes and clocks, one after a failed `send_to`: the same fate. -/
theorem schedule_agrees_two_runs :
    ∃ (past past' : List WorldEvent) (f g : Fate), past.length ≠ past'.length ∧
      (fates 0 past)[0]? = some f ∧ (fates 0 past')[0]? = some g ∧ f = g := by
  let host : Host := ⟨fun _ rng => (false, rng.advance), fun _ => 0⟩
  let options : FaultOptions := ⟨0, 9, .finite 0, .finite (1 / 2)⟩
  let w : World := ⟨Network.empty, fun _ => some (opened options ⟨1, 2, 3, 4⟩)⟩
  let fate : Fate := .queued 0 4 [2, 7, 6, 6]
  have drawn : (drawFate options host 9 ⟨1, 2, 3, 4⟩).map Prod.fst = some fate := by
    decide +kernel
  obtain ⟨after, delivered⟩ := deliver_of_draw (w := w) 5 [1] default rfl drawn
  have failed : WorldStep host w (.sendToFailed default (.ok []) (failure 64 EHOSTUNREACH))
      (w.sendTo default (.ok [])).2 := rfl
  obtain ⟨after', delivered'⟩ := deliver_of_draw
    (w := (w.sendTo default (.ok [])).2) 100 [2, 3] default rfl drawn
  let past : List WorldEvent := [.deliver 0 5 [1] default fate]
  let past' : List WorldEvent := [.sendToFailed default (.ok []) (failure 64 EHOSTUNREACH),
    .deliver 0 100 [2, 3] default fate]
  have path : Path (WorldStep host) w past after := Path.start.snoc delivered
  have path' : Path (WorldStep host) w past' after' := (Path.start.snoc failed).snoc delivered'
  have agree := schedule_agrees (s := 0) (t := 0) (p := opened options ⟨1, 2, 3, 4⟩)
    rfl rfl rfl rfl path path' 0 fate fate rfl rfl
  exact ⟨past, past', fate, fate, by decide, rfl, rfl, agree.1⟩

end FaultSchedule
