import Redstone.ConstantLatency
import Redstone.SamplingSafety

/-!
# How far datagrams overtake each other

The copies of a datagram arrive between the smallest latency and the largest one after its
send, replays up to twice the largest. A datagram can therefore overtake only what was sent
a short time before: after a pause in the sends that is longer than the spread of the
arrivals, nothing is received before everything from in front of the pause has been.
-/

namespace BurstOrder

open MachineWords Generators FaultSampling SocketAddr DatagramPipe StepRuns
open ConstantLatency (readings received readings_snoc toInt_add_defined replayCount_zero)
open SamplingSafety (latency_inside)

/-- The largest delay of a copy. A replay is delayed by twice the latency that it draws. -/
def latest (o : FaultOptions) : Int :=
  if o.pReplay = .finite 0 then o.maxLatency.toInt else 2 * o.maxLatency.toInt

/-- A range of latencies that the samples and their doubles do not leave. -/
structure Ranged (o : FaultOptions) : Prop where
  positive : 0 ≤ o.minLatency.toInt
  ordered : o.minLatency.toInt ≤ o.maxLatency.toInt
  room : latest o < 2 ^ 63 - 1

instance (o : FaultOptions) : Decidable (Ranged o) :=
  decidable_of_iff (0 ≤ o.minLatency.toInt ∧ o.minLatency.toInt ≤ o.maxLatency.toInt ∧
      latest o < 2 ^ 63 - 1)
    ⟨fun ⟨positive, ordered, room⟩ => ⟨positive, ordered, room⟩,
      fun ⟨positive, ordered, room⟩ => ⟨positive, ordered, room⟩⟩

theorem maxLatency_le {o : FaultOptions} (ranged : Ranged o) : o.maxLatency.toInt ≤ latest o := by
  obtain ⟨positive, ordered, -⟩ := ranged
  rw [latest]
  split
  · exact Int.le_refl _
  · omega

theorem latency_between {o : FaultOptions} (ranged : Ranged o) {rng after : Xoshiro} {l : I64}
    (drawn : o.latency rng = some (l, after)) :
    o.minLatency.toInt ≤ l.toInt ∧ l.toInt ≤ o.maxLatency.toInt := by
  have below := maxLatency_le ranged
  have room := ranged.room
  obtain ⟨l', after', drawn', inside⟩ := latency_inside ranged.ordered (by omega) rng
  rw [drawn] at drawn'
  obtain ⟨rfl, -⟩ := Prod.mk.inj (Option.some.inj drawn')
  exact inside

theorem replay_between {o : FaultOptions} (ranged : Ranged o) {count : Nat} :
    ∀ {rng after : Xoshiro} {latencies : List I64},
      replayLatencies o count rng = some (latencies, after) →
      ∀ l ∈ latencies, o.minLatency.toInt ≤ l.toInt ∧ l.toInt ≤ o.maxLatency.toInt := by
  induction count with
  | zero =>
    intro rng after latencies drawn l member
    cases drawn
    cases member
  | succ count ih =>
    intro rng after latencies drawn l member
    simp only [replayLatencies, Option.bind_eq_bind, Option.bind_eq_some_iff] at drawn
    obtain ⟨first, here, others, rest, result⟩ := drawn
    rw [← (Prod.mk.inj (Option.some.inj result)).1] at member
    rcases List.mem_cons.mp member with rfl | later
    · exact latency_between ranged here
    · exact ih rest l later

theorem toInt_double {l : I64} (positive : 0 ≤ l.toInt) (room : 2 * l.toInt < 2 ^ 63) :
    (l * 2).toInt = 2 * l.toInt := by
  have two : (2 : I64).toInt = 2 := rfl
  rw [BitVec.toInt_mul, two, Int.bmod_eq_of_le]
  · omega
  · omega
  · omega

/-- Every copy is delayed by a time from the range. -/
theorem delays_between {o : FaultOptions} (ranged : Ranged o) {host : Host} {fuel : Nat}
    {rng after : Xoshiro} {fate : Fate}
    (drawn : drawFate o host fuel rng = some (fate, after)) :
    ∀ d ∈ fate.delays, o.minLatency.toInt ≤ d.toInt ∧ d.toInt ≤ latest o := by
  have below := maxLatency_le ranged
  have positive := ranged.positive
  have room := ranged.room
  intro d member
  rcases drawFate_cases drawn with ⟨-, rfl⟩ |
    ⟨kept, first, counted, replays, -, delayed, counting, rest, rfl⟩
  · cases member
  · rcases List.mem_cons.mp member with rfl | replay
    · have inside := latency_between ranged delayed
      exact ⟨inside.1, inside.2.trans below⟩
    · obtain ⟨l, here, rfl⟩ := List.mem_map.mp replay
      have inside := replay_between ranged rest l here
      by_cases never : o.pReplay = .finite 0
      · have length := length_replayLatencies rest
        rw [replayCount_zero never counting] at length
        rw [List.length_eq_zero_iff.mp length] at here
        cases here
      · rw [latest, if_neg never] at room ⊢
        rw [toInt_double (by omega) (by omega)]
        omega

theorem packet_delayed {fate : Fate} {now : I64} {data : List Byte} {source : Addr} {p : Packet}
    (member : p ∈ fate.packets now data source) : ∃ d ∈ fate.delays, p.arrival = now + d := by
  cases fate with
  | dropped => cases member
  | queued latency count replays =>
    rcases List.mem_cons.mp member with rfl | replay
    · exact ⟨latency, List.mem_cons_self, rfl⟩
    · obtain ⟨l, here, rfl⟩ := List.mem_map.mp replay
      exact ⟨l * 2, List.mem_cons_of_mem _ (List.mem_map_of_mem here), rfl⟩

/-- The clock can represent every arrival. -/
def Representable (o : FaultOptions) (now : I64) : Prop := now.toInt + latest o < 2 ^ 63

theorem arrival_between {o : FaultOptions} (ranged : Ranged o) {host : Host} {fuel : Nat}
    {rng after : Xoshiro} {fate : Fate} {now : I64} {data : List Byte} {source : Addr}
    {p : Packet} (drawn : drawFate o host fuel rng = some (fate, after))
    (fits : Representable o now) (member : p ∈ fate.packets now data source) :
    now.toInt + o.minLatency.toInt ≤ p.arrival.toInt ∧
      p.arrival.toInt ≤ now.toInt + latest o := by
  obtain ⟨d, delay, arrival⟩ := packet_delayed member
  have inside := delays_between ranged drawn d delay
  have positive := ranged.positive
  have lowest : -2 ^ 63 ≤ now.toInt := BitVec.le_toInt now
  rw [Representable] at fits
  have sum : now.toInt + d.toInt < 2 ^ 63 := by omega
  rw [arrival, toInt_add_defined ⟨by omega, sum⟩]
  omega

/-! ## In front of the pause -/

/-- The clock can represent the arrivals after all sends of a burst. -/
def Fits (o : FaultOptions) (burst : List Event) : Prop :=
  ∀ now ∈ readings burst, Representable o now

theorem reading_of_queued {past : List Event} {now : I64} {data : List Byte} {source : Addr}
    {latency : I64} {count : Nat} {replays : List I64} :
    now ∈ readings (past ++ [.send now data source (.queued latency count replays)]) := by
  rw [readings_snoc]
  exact List.mem_append_right _ (List.mem_singleton_self now)

/-- A packet that a send of the burst queues, between the bounds for its reading. -/
theorem sent_between {o : FaultOptions} (ranged : Ranged o) {host : Host} {fuel : Nat}
    {rng after : Xoshiro} {fate : Fate} {past : List Event} {now : I64} {data : List Byte}
    {source : Addr} (drawn : drawFate o host fuel rng = some (fate, after))
    (fits : Fits o (past ++ [.send now data source fate])) {p : Packet}
    (member : p ∈ fate.packets now data source) :
    now ∈ readings (past ++ [.send now data source fate]) ∧
      now.toInt + o.minLatency.toInt ≤ p.arrival.toInt ∧
      p.arrival.toInt ≤ now.toInt + latest o := by
  cases fate with
  | dropped => cases member
  | queued latency count replays =>
    have reads := @reading_of_queued past now data source latency count replays
    exact ⟨reads, arrival_between ranged drawn (fits now reads) member⟩

theorem readings_front (past : List Event) (e : Event) {now : I64} (member : now ∈ readings past) :
    now ∈ readings (past ++ [e]) := by
  rw [readings_snoc]
  exact List.mem_append_left _ member

/-- All that is queued arrives soon after the last send. -/
theorem first_arrivals {o : FaultOptions} (ranged : Ranged o) {host : Host} {rng : Xoshiro}
    {past : List Event} {pipe : Pipe} {a : Int}
    (path : Path (PipeStep host) (opened o rng) past pipe) (fits : Fits o past)
    (reads : ∀ now ∈ readings past, now.toInt ≤ a) :
    pipe.options = o ∧ ∀ p ∈ pipe.packets, p.arrival.toInt ≤ a + latest o := by
  induction path with
  | start =>
    refine ⟨rfl, fun p queued => ?_⟩
    cases Multiset.notMem_zero p queued
  | @snoc past pipe after e _ last ih =>
    obtain ⟨options, early⟩ := ih (fun now member => fits now (readings_front past e member))
      fun now member => reads now (readings_front past e member)
    cases e with
    | send now data source fate =>
      obtain ⟨fuel, sent⟩ := last
      obtain ⟨drawn, same, packets⟩ := send_spec sent
      rw [options] at drawn
      refine ⟨same.trans options, fun p queued => ?_⟩
      rw [packets] at queued
      rcases Multiset.mem_add.mp queued with old | new
      · exact early p old
      · obtain ⟨member, -, below⟩ := sent_between ranged drawn fits new
        have bound := reads now member
        omega
    | recv now d =>
      obtain ⟨p, -, -, -, rfl⟩ := last
      exact ⟨options, fun q queued => early q (Multiset.mem_of_mem_erase queued)⟩

/-! ## What is due -/

/-- The queue and what was received, split into what arrives until `c` and what arrives
later. Of both, `owed` and `later` were queued when the split began. -/
structure Split (o : FaultOptions) (c : Int) (owed later : Multiset Datagram)
    (past : List Event) (pipe : Pipe) (first second : Multiset Packet)
    (old new : List Datagram) : Prop where
  options : pipe.options = o
  packets : pipe.packets = first + second
  early : ∀ p ∈ first, p.arrival.toInt ≤ c
  late : ∀ p ∈ second, c < p.arrival.toInt
  order : past.filterMap received = old ++ new
  before : (old : Multiset Datagram) + first.map Packet.datagram = owed
  after : (new : Multiset Datagram) + second.map Packet.datagram = later + accepted past
  done : new ≠ [] → first = 0

theorem split_send {o : FaultOptions} (ranged : Ranged o) {host : Host} {c : Int}
    {owed later : Multiset Datagram} {past : List Event} {pipe after : Pipe}
    {first second : Multiset Packet} {old new : List Datagram} {now : I64} {data : List Byte}
    {source : Addr} {fate : Fate} (split : Split o c owed later past pipe first second old new)
    (step : PipeStep host pipe (.send now data source fate) after)
    (fits : Fits o (past ++ [.send now data source fate]))
    (reads : ∀ t ∈ readings (past ++ [.send now data source fate]),
      c < t.toInt + o.minLatency.toInt) :
    Split o c owed later (past ++ [.send now data source fate]) after first
      (second + (fate.packets now data source : Multiset Packet)) old new := by
  obtain ⟨fuel, sent⟩ := step
  obtain ⟨drawn, same, packets⟩ := send_spec sent
  have complete := drawFate_complete drawn
  rw [split.options] at drawn
  refine ⟨same.trans split.options, ?_, split.early, fun p member => ?_, ?_, split.before, ?_,
    split.done⟩
  · rw [packets, split.packets, Multiset.add_assoc]
  · rcases Multiset.mem_add.mp member with old' | new'
    · exact split.late p old'
    · obtain ⟨member', above, -⟩ := sent_between ranged drawn fits new'
      exact (reads now member').trans_le above
  · rw [filterMap_snoc, split.order]
    exact List.append_nil _
  · rw [accepted_snoc, ← Multiset.add_assoc, ← split.after, Multiset.map_add,
      Fate.datagrams complete, Multiset.add_assoc]

/-- The top of the queue is one of the early packets as long as there are any. -/
theorem split_recv {o : FaultOptions} {host : Host} {c : Int}
    {owed later : Multiset Datagram} {past : List Event} {pipe after : Pipe}
    {first second : Multiset Packet} {old new : List Datagram} {now : I64} {d : Datagram}
    (split : Split o c owed later past pipe first second old new)
    (step : PipeStep host pipe (.recv now d) after) :
    ∃ first second old new,
      Split o c owed later (past ++ [.recv now d]) after first second old new := by
  obtain ⟨p, ⟨member, top⟩, -, rfl, rfl⟩ := step
  have silent : accepted (past ++ [.recv now p.datagram]) = accepted past :=
    (accepted_snoc past _).trans (add_zero _)
  rw [split.packets] at member top
  by_cases mine : p ∈ first
  · have none : new = [] := by
      by_contra some
      rw [split.done some] at mine
      exact Multiset.notMem_zero p mine
    refine ⟨first.erase p, second, old ++ [p.datagram], [], split.options, ?_,
      fun q queued => split.early q (Multiset.mem_of_mem_erase queued), split.late, ?_, ?_, ?_,
      fun some => absurd rfl some⟩
    · rw [← Multiset.erase_add_left_pos second mine, ← split.packets]
    · rw [filterMap_snoc, split.order, none, List.append_nil, List.append_nil]
      rfl
    · rw [← split.before, ← Multiset.coe_add, Multiset.add_assoc]
      congr 1
      rw [Multiset.coe_singleton, Multiset.singleton_add, ← Multiset.map_cons,
        Multiset.cons_erase mine]
    · rw [silent, ← split.after, none]
  · have theirs : p ∈ second := (Multiset.mem_add.mp member).resolve_left mine
    have empty : first = 0 := by
      refine Multiset.eq_zero_of_forall_notMem fun q queued => ?_
      have early := split.early q queued
      have late := split.late p theirs
      exact top q (Multiset.mem_add.mpr (Or.inl queued)) (early.trans_lt late)
    refine ⟨first, second.erase p, old, new ++ [p.datagram], split.options, ?_, split.early,
      fun q queued => split.late q (Multiset.mem_of_mem_erase queued), ?_, split.before, ?_,
      fun _ => empty⟩
    · rw [← Multiset.erase_add_right_neg second mine, ← split.packets]
    · rw [filterMap_snoc, split.order, List.append_assoc]
      rfl
    · rw [silent, ← split.after, ← Multiset.coe_add, Multiset.add_assoc]
      congr 1
      rw [Multiset.coe_singleton, Multiset.singleton_add, ← Multiset.map_cons,
        Multiset.cons_erase theirs]

/-- The packets of a pipe that arrive until `c`, and the others. -/
def arrivedBy (c : Int) (pipe : Pipe) : Multiset Packet :=
  pipe.packets.filter fun p => p.arrival.toInt ≤ c

def laterThan (c : Int) (pipe : Pipe) : Multiset Packet :=
  pipe.packets.filter fun p => ¬p.arrival.toInt ≤ c

def due (c : Int) (pipe : Pipe) : Multiset Datagram := (arrivedBy c pipe).map Packet.datagram

theorem split_run {o : FaultOptions} (ranged : Ranged o) {host : Host} {c : Int}
    {mid last : Pipe} {more : List Event} (path : Path (PipeStep host) mid more last)
    (options : mid.options = o) (fits : Fits o more)
    (reads : ∀ now ∈ readings more, c < now.toInt + o.minLatency.toInt) :
    ∃ first second old new, Split o c (due c mid) ((laterThan c mid).map Packet.datagram) more
      last first second old new := by
  induction path with
  | start =>
    refine ⟨arrivedBy c mid, laterThan c mid, [], [], options, ?_, ?_, ?_, rfl, zero_add _, ?_,
      fun some => absurd rfl some⟩
    · exact (Multiset.filter_add_not _ _).symm
    · exact fun p queued => (Multiset.mem_filter.mp queued).2
    · exact fun p queued => Int.not_le.mp (Multiset.mem_filter.mp queued).2
    · exact (zero_add _).trans (add_zero _).symm
  | @snoc past pipe after e _ last ih =>
    obtain ⟨first, second, old, new, split⟩ := ih
      (fun now member => fits now (readings_front past e member))
      fun now member => reads now (readings_front past e member)
    cases e with
    | send now data source fate =>
      exact ⟨first, _, old, new, split_send ranged split last fits reads⟩
    | recv now d => exact split_recv split last

/-- Copies that have arrived are not overtaken by what is sent afterwards: of `k` copies due
at the time `c`, the next receives hand out nothing else before they have handed out all. -/
theorem due_first {o : FaultOptions} (ranged : Ranged o) {host : Host} {c : Int}
    {mid last : Pipe} {more : List Event} (options : mid.options = o)
    (path : Path (PipeStep host) mid more last)
    (fits : ∀ now ∈ readings more, Representable o now)
    (reads : ∀ now ∈ readings more, c < now.toInt + o.minLatency.toInt) :
    ((more.filterMap received).take (due c mid).card : Multiset Datagram) ≤ due c mid ∧
      ((due c mid).card ≤ (more.filterMap received).length →
        ((more.filterMap received).take (due c mid).card : Multiset Datagram) = due c mid) := by
  obtain ⟨first, second, old, new, split⟩ := split_run ranged path options fits reads
  have inside :
      ((more.filterMap received).take (due c mid).card : Multiset Datagram) ≤ due c mid := by
    have whole : (old : Multiset Datagram) ≤ due c mid := by
      rw [← split.before]
      exact Multiset.le_add_right _ _
    rw [split.order]
    by_cases none : new = []
    · rw [none, List.append_nil]
      exact le_trans (Multiset.coe_le.mpr (List.take_sublist _ _).subperm) whole
    · have all : (old : Multiset Datagram) = due c mid := by
        have before := split.before
        rwa [split.done none, Multiset.map_zero, add_zero] at before
      have count : (due c mid).card = old.length := by rw [← all, Multiset.coe_card]
      rw [count, List.take_left' rfl]
      exact whole
  refine ⟨inside, fun enough => Multiset.eq_of_le_of_card_le inside ?_⟩
  rw [Multiset.coe_card, List.length_take, Nat.min_eq_left enough]

/-- Two copies are due when a third is queued, and are received in front of it. -/
theorem due_first_two :
    ∃ (host : Host) (mid last : Pipe) (more : List Event), Path (PipeStep host) mid more last ∧
      due 5 mid = {([1], default), ([2], default)} ∧ last.packets.card = 1 ∧
      ((more.filterMap received).take 2 : Multiset Datagram) = due 5 mid := by
  let host : Host := ⟨fun _ rng => (false, rng.advance), fun _ => 0⟩
  let o : FaultOptions := ⟨5, 5, .finite 0, .finite 0⟩
  let copy (byte : Byte) (arrival : I64) : Packet := ⟨arrival, [byte], default⟩
  let mid : Pipe := ⟨{copy 1 3, copy 2 4}, o, ⟨1, 2, 3, 4⟩⟩
  let rng : Xoshiro := Xoshiro.advance^[3] ⟨1, 2, 3, 4⟩
  have sent : PipeStep host mid (.send 6 [3] default (.queued 5 0 []))
      ⟨{copy 3 11, copy 1 3, copy 2 4}, o, rng⟩ := ⟨1, by decide +kernel⟩
  have first : PipeStep host ⟨{copy 3 11, copy 1 3, copy 2 4}, o, rng⟩
      (.recv 20 ([1], default)) ⟨{copy 3 11, copy 2 4}, o, rng⟩ := ⟨copy 1 3, by decide +kernel⟩
  have second : PipeStep host ⟨{copy 3 11, copy 2 4}, o, rng⟩ (.recv 20 ([2], default))
      ⟨{copy 3 11}, o, rng⟩ := ⟨copy 2 4, by decide +kernel⟩
  have path := ((Path.start.snoc sent).snoc first).snoc second
  have reads : ∀ now ∈ ([6] : List I64), now = 6 := fun now member => List.mem_singleton.mp member
  have ranged : Ranged o := by decide +kernel
  have arrived : due 5 mid = {([1], default), ([2], default)} := by decide +kernel
  have count : (due 5 mid).card = 2 := congrArg Multiset.card arrived
  have result := due_first (c := 5) ranged (show mid.options = o from rfl) path
    (fun now member => by
      rw [reads now member, Representable]
      decide +kernel)
    fun now member => by
      rw [reads now member]
      decide
  rw [count] at result
  exact ⟨host, mid, _, _, path, arrived, rfl, result.2 (by decide)⟩

theorem returned_received (past : List Event) :
    returned past = (past.filterMap received : Multiset Datagram) := by
  induction past using List.reverseRecOn with
  | nil => rfl
  | append_singleton past e ih =>
    rw [returned_snoc, filterMap_snoc, ← Multiset.coe_add, ih]
    cases e <;> rfl

/-- Two bursts of sends, with a pause between them that is longer than the spread of the
latencies. Nothing of the second burst is received before all copies of the first one have
been, whatever is dropped or replayed and whenever the receiver reads. -/
theorem pause_orders {o : FaultOptions} (ranged : Ranged o) {host : Host} {rng : Xoshiro}
    {before after : List Event} {mid last : Pipe} {a b : Int}
    (path : Path (PipeStep host) (opened o rng) before mid)
    (more : Path (PipeStep host) mid after last)
    (fits : ∀ now ∈ readings before ++ readings after, Representable o now)
    (earlier : ∀ now ∈ readings before, now.toInt ≤ a)
    (later : ∀ now ∈ readings after, b ≤ now.toInt)
    (pause : a + latest o < b + o.minLatency.toInt) :
    ∃ old new, (before ++ after).filterMap received = old ++ new ∧
      (old : Multiset Datagram) ≤ accepted before ∧ (new : Multiset Datagram) ≤ accepted after ∧
      (new ≠ [] → (old : Multiset Datagram) = accepted before) := by
  obtain ⟨options, early⟩ := first_arrivals ranged path
    (fun now member => fits now (List.mem_append_left _ member)) earlier
  obtain ⟨first, second, old, new, split⟩ := split_run (c := a + latest o) ranged more options
    (fun now member => fits now (List.mem_append_right _ member))
    fun now member => by
      have bound := later now member
      omega
  have all : arrivedBy (a + latest o) mid = mid.packets := Multiset.filter_eq_self.mpr early
  have nothing : laterThan (a + latest o) mid = 0 :=
    Multiset.filter_eq_nil.mpr fun p queued => not_not.mpr (early p queued)
  have owed : due (a + latest o) mid = mid.queued := congrArg (Multiset.map Packet.datagram) all
  have whole : (before.filterMap received ++ old : List Datagram) +
      first.map Packet.datagram = accepted before := by
    rw [← (pipe_conserves path).1, ← owed, ← split.before, returned_received,
      ← Multiset.coe_add, Multiset.add_assoc]
    exact add_comm _ _
  have rest : (new : Multiset Datagram) + second.map Packet.datagram = accepted after := by
    rw [split.after, nothing, Multiset.map_zero, zero_add]
  refine ⟨before.filterMap received ++ old, new, ?_, ?_, ?_, fun some => ?_⟩
  · rw [List.filterMap_append, split.order, List.append_assoc]
  · rw [← whole]
    exact Multiset.le_add_right _ _
  · rw [← rest]
    exact Multiset.le_add_right _ _
  · rw [← whole, split.done some]
    exact (add_zero _).symm

/-- Bursts of one send each, seventeen nanoseconds apart, with replays of both. -/
theorem pause_orders_replayed :
    ∃ (host : Host) (rng : Xoshiro) (before after : List Event) (mid last : Pipe),
      Path (PipeStep host) (opened ⟨2, 9, .finite 0, .finite (1 / 2)⟩ rng) before mid ∧
        Path (PipeStep host) mid after last ∧
        ∃ old new, (before ++ after).filterMap received = old ++ new ∧
          (old : Multiset Datagram) ≤ accepted before ∧
          (new : Multiset Datagram) ≤ accepted after ∧
          (new ≠ [] → (old : Multiset Datagram) = accepted before) := by
  let host : Host := ⟨fun _ rng => (false, rng.advance), fun _ => 0⟩
  let o : FaultOptions := ⟨2, 9, .finite 0, .finite (1 / 2)⟩
  let rng : Xoshiro := Xoshiro.advance^[3]
    ⟨0x1234567890abcdef, 0x7777777777777777, 0x9999999999999999, 0xabcdef0123456789⟩
  let one (arrival : I64) : Packet := ⟨arrival, [1], default⟩
  let two (arrival : I64) : Packet := ⟨arrival, [2], default⟩
  have sent : PipeStep host (opened o rng) (.send 0 [1] default (.queued 7 1 [6]))
      ⟨{one 7, one 12}, o, Xoshiro.advance^[5] rng⟩ := ⟨9, by decide +kernel⟩
  have path := Path.start.snoc sent
  have later : PipeStep host ⟨{one 7, one 12}, o, Xoshiro.advance^[5] rng⟩
      (.send 17 [2] default (.queued 2 3 [2, 4, 3]))
      ⟨{two 19, one 7, one 12, two 21, two 25, two 23}, o, Xoshiro.advance^[14] rng⟩ :=
    ⟨9, by decide +kernel⟩
  have taken : PipeStep host
      ⟨{two 19, one 7, one 12, two 21, two 25, two 23}, o, Xoshiro.advance^[14] rng⟩
      (.recv 30 ([1], default))
      ⟨{two 19, one 12, two 21, two 25, two 23}, o, Xoshiro.advance^[14] rng⟩ :=
    ⟨one 7, by decide +kernel⟩
  have more := (Path.start.snoc later).snoc taken
  have ranged : Ranged o := by decide +kernel
  let before : List Event := [.send 0 [1] default (.queued 7 1 [6])]
  let after : List Event := [.send 17 [2] default (.queued 2 3 [2, 4, 3]),
    .recv 30 ([1], default)]
  have first : ∀ now ∈ readings before, now = 0 := fun now member =>
    List.mem_singleton.mp member
  have second : ∀ now ∈ readings after, now = 17 := fun now member =>
    List.mem_singleton.mp member
  have spread : latest o = 18 := by decide +kernel
  have fits : ∀ now ∈ readings before ++ readings after, Representable o now := by
    intro now member
    rw [Representable, spread]
    rcases List.mem_append.mp member with early | late
    · rw [first now early]
      decide
    · rw [second now late]
      decide
  have earlier : ∀ now ∈ readings before, now.toInt ≤ 0 := by
    intro now member
    rw [first now member]
    decide
  have later' : ∀ now ∈ readings after, 17 ≤ now.toInt := by
    intro now member
    rw [second now member]
    decide
  have pause : 0 + latest o < 17 + o.minLatency.toInt := by
    rw [spread]
    decide
  exact ⟨host, rng, before, after, _, _, path, more,
    pause_orders ranged path more fits earlier later' pause⟩

end BurstOrder
