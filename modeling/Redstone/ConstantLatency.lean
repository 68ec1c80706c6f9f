import Redstone.DatagramPipe

/-!
# Constant latency

With equal latency bounds the sampler draws from a range of one value, and a replay chance
of zero gives no replays. A packet then arrives one fixed delay after its send, so packets
sent at increasing readings of the clock arrive in the order of their sends, and the queue
gives them out in this order. The sum of a reading and the delay must be one that the
clock can represent: the overflow of a signed sum is undefined.
-/

namespace ConstantLatency

open MachineWords Generators FaultSampling SocketAddr DatagramPipe StepRuns

/-- Equal latency bounds and no replays. -/
def constant (latency : I64) (pDrop : Double) : FaultOptions :=
  ⟨latency, latency, pDrop, .finite 0⟩

/-- The sum of a reading and a delay does not overflow. -/
def Defined (now latency : I64) : Prop :=
  -2 ^ 63 ≤ now.toInt + latency.toInt ∧ now.toInt + latency.toInt < 2 ^ 63

/-- The clock readings of the sends that drew to be delivered. -/
def reading : Event → Option I64
  | .send now _ _ (.queued _ _ _) => some now
  | _ => none

def readings (past : List Event) : List I64 := past.filterMap reading

/-- Sends read the clock at strictly increasing times. -/
def Increasing (past : List Event) : Prop :=
  (readings past).Pairwise fun a b => a.toInt < b.toInt

/-- A datagram whose drop draw was false. -/
def kept : Event → Option Datagram
  | .send _ data source (.queued _ _ _) => some (data, source)
  | _ => none

def received : Event → Option Datagram
  | .recv _ d => some d
  | _ => none

theorem latency_constant (latency : I64) (pDrop : Double) (rng : Xoshiro) :
    (constant latency pDrop).latency rng = some (latency, rng.advance) := by
  have width : latency + 1 - latency = 1#64 := by
    rw [BitVec.add_comm, BitVec.add_sub_cancel]
    rfl
  have sample : ∀ v : U64, latency + v % 1#64 = latency := by
    intro v
    rw [BitVec.umod_one, BitVec.add_zero]
  have nonzero : (1#64 : U64) ≠ 0 := by decide
  change sampleUniform rng latency (latency + 1) = _
  simp only [sampleUniform, width, if_neg nonzero, sample]
  rfl

theorem threshold_zero (host : Host) : threshold host (.finite 0) = 0 := by
  have inside : -1 < (0 : ℚ) * 2 ^ 64 ∧ (0 : ℚ) * 2 ^ 64 < 2 ^ 64 := by norm_num
  rw [threshold, if_pos inside, zero_mul]
  rfl

/-- A chance of zero never comes up. -/
theorem genBool_zero (host : Host) (rng : Xoshiro) :
    (genBool host rng (.finite 0)).1 = false := by
  have never : ¬rng.next.1 < (0 : U64) := BitVec.not_lt_zero
  have other : ¬(0 : U64) = BitVec.allOnes 64 := by decide
  simp only [genBool, threshold_zero, if_neg other, decide_eq_false_iff_not]
  exact never

theorem replayCount_zero {o : FaultOptions} {host : Host} {fuel : Nat} {rng : Xoshiro}
    {counted : Nat × Xoshiro} (never : o.pReplay = .finite 0)
    (ended : o.replayCount host fuel rng 0 = some counted) : counted.1 = 0 := by
  cases fuel with
  | zero => cases ended
  | succ fuel =>
    have stops := genBool_zero host rng
    rw [← never] at stops
    rcases draw : genBool host rng o.pReplay with ⟨again, after⟩
    rw [draw] at stops
    cases stops
    simp only [FaultOptions.replayCount, draw, Bool.false_eq_true, if_false] at ended
    rw [← Option.some.inj ended]

/-- A send drops its datagram or queues it once, one fixed delay ahead. -/
theorem drawFate_constant {latency : I64} {pDrop : Double} {host : Host} {fuel : Nat}
    {rng after : Xoshiro} {fate : Fate}
    (drawn : drawFate (constant latency pDrop) host fuel rng = some (fate, after)) :
    fate = .dropped ∨ fate = .queued latency 0 [] := by
  rcases drawFate_cases drawn with ⟨_, dropped⟩ |
    ⟨first, delay, counted, replays, _, delayed, counting, rest, queued⟩
  · exact Or.inl dropped
  · rw [latency_constant] at delayed
    have none := replayCount_zero rfl counting
    have length := length_replayLatencies rest
    rw [none] at length
    rw [queued, none, List.length_eq_zero_iff.mp length, ← Option.some.inj delayed]
    exact Or.inr rfl

/-! ## In the order of their sends -/

/-- The queue as a list in the order of the sends, which is also that of the arrivals. -/
structure InOrder (latency : I64) (pDrop : Double) (past : List Event) (pipe : Pipe)
    (queue : List Packet) : Prop where
  options : pipe.options = constant latency pDrop
  packets : pipe.packets = (queue : Multiset Packet)
  ordered : queue.Pairwise fun p q => p.arrival.toInt < q.arrival.toInt
  sequence : past.filterMap kept = past.filterMap received ++ queue.map Packet.datagram
  arrivals : ∀ p ∈ queue, ∃ now ∈ readings past, p.arrival = now + latency

theorem toInt_add_defined {now latency : I64} (defined : Defined now latency) :
    (now + latency).toInt = now.toInt + latency.toInt := by
  rw [BitVec.toInt_add, Int.bmod_eq_of_le]
  · exact defined.1
  · exact defined.2

theorem readings_snoc (past : List Event) (e : Event) :
    readings (past ++ [e]) = readings past ++ (reading e).toList := filterMap_snoc reading past e

theorem inOrder_send {latency : I64} {pDrop : Double} {host : Host} {past : List Event}
    {pipe after : Pipe} {queue : List Packet} {now : I64} {data : List Byte} {source : Addr}
    {fate : Fate} (inOrder : InOrder latency pDrop past pipe queue)
    (step : PipeStep host pipe (.send now data source fate) after)
    (increasing : Increasing (past ++ [.send now data source fate]))
    (defined : ∀ t ∈ readings (past ++ [.send now data source fate]), Defined t latency) :
    ∃ queue, InOrder latency pDrop (past ++ [.send now data source fate]) after queue := by
  obtain ⟨fuel, sent⟩ := step
  obtain ⟨drawn, options, packets⟩ := send_spec sent
  rw [inOrder.options] at drawn
  rcases drawFate_constant drawn with rfl | rfl
  · refine ⟨queue, options.trans inOrder.options, ?_, inOrder.ordered, ?_, ?_⟩
    · rw [packets, inOrder.packets]
      exact add_zero _
    · rw [filterMap_snoc, filterMap_snoc, inOrder.sequence]
      simp [kept, received]
    · have same : readings (past ++ [.send now data source .dropped]) = readings past :=
        (readings_snoc past _).trans (List.append_nil _)
      rw [same]
      exact inOrder.arrivals
  · rw [Increasing, readings_snoc] at increasing
    rw [readings_snoc] at defined
    have here : Defined now latency := defined now (by simp [reading])
    refine ⟨queue ++ [⟨now + latency, data, source⟩], options.trans inOrder.options, ?_, ?_, ?_,
      ?_⟩
    · rw [packets, inOrder.packets, Multiset.coe_add]
      rfl
    · rw [List.pairwise_append]
      refine ⟨inOrder.ordered, List.pairwise_singleton _ _, ?_⟩
      intro p queued q last
      obtain ⟨earlier, member, arrival⟩ := inOrder.arrivals p queued
      rw [List.mem_singleton.mp last, arrival, toInt_add_defined here,
        toInt_add_defined (defined earlier (List.mem_append_left _ member))]
      have before := (List.pairwise_append.mp increasing).2.2 earlier member now
        (List.mem_singleton_self now)
      omega
    · rw [filterMap_snoc, filterMap_snoc, inOrder.sequence, List.map_append]
      simp [kept, received, Packet.datagram]
    · intro p queued
      rw [readings_snoc]
      rcases List.mem_append.mp queued with old | new
      · obtain ⟨earlier, member, arrival⟩ := inOrder.arrivals p old
        exact ⟨earlier, List.mem_append_left _ member, arrival⟩
      · rw [List.mem_singleton.mp new]
        exact ⟨now, List.mem_append_right _ (List.mem_singleton_self now), rfl⟩

/-- The top of the queue is the packet sent first. -/
theorem top_first {pipe : Pipe} {p : Packet} {queue : List Packet}
    (packets : pipe.packets = (queue : Multiset Packet))
    (ordered : queue.Pairwise fun p q => p.arrival.toInt < q.arrival.toInt)
    (top : pipe.IsTop p) : ∃ rest, queue = p :: rest := by
  obtain ⟨member, latest⟩ := top
  rw [packets, Multiset.mem_coe] at member
  cases queue with
  | nil => cases member
  | cons q rest =>
    rcases List.mem_cons.mp member with rfl | later
    · exact ⟨rest, rfl⟩
    · have before := (List.pairwise_cons.mp ordered).1 p later
      have first : q ∈ pipe.packets := by
        rw [packets]
        exact List.mem_cons_self
      exact absurd before (latest q first)

theorem inOrder_recv {latency : I64} {pDrop : Double} {host : Host} {past : List Event}
    {pipe after : Pipe} {queue : List Packet} {now : I64} {d : Datagram}
    (inOrder : InOrder latency pDrop past pipe queue)
    (step : PipeStep host pipe (.recv now d) after) :
    ∃ queue, InOrder latency pDrop (past ++ [.recv now d]) after queue := by
  obtain ⟨p, top, _, rfl, rfl⟩ := step
  obtain ⟨rest, rfl⟩ := top_first inOrder.packets inOrder.ordered top
  refine ⟨rest, inOrder.options, ?_, (List.pairwise_cons.mp inOrder.ordered).2, ?_, ?_⟩
  · change pipe.packets.erase p = _
    rw [inOrder.packets, Multiset.coe_erase, List.erase_cons_head]
  · rw [filterMap_snoc, filterMap_snoc, inOrder.sequence]
    simp [kept, received]
  · intro q queued
    have same : readings (past ++ [.recv now p.datagram]) = readings past :=
      (readings_snoc past _).trans (List.append_nil _)
    rw [same]
    exact inOrder.arrivals q (List.mem_cons_of_mem p queued)

/-- In every run with constant latency, no replays, and sends at increasing readings of the
clock, the datagrams received are a prefix of those kept, in the order of their sends. The
recvs may read any clock. -/
theorem received_prefix_kept {latency : I64} {pDrop : Double} {host : Host} {rng : Xoshiro}
    {past : List Event} {pipe : Pipe}
    (path : Path (PipeStep host) (opened (constant latency pDrop) rng) past pipe)
    (increasing : Increasing past) (defined : ∀ now ∈ readings past, Defined now latency) :
    past.filterMap received <+: past.filterMap kept := by
  have inOrder : ∃ queue, InOrder latency pDrop past pipe queue := by
    refine history_invariant (fun past pipe => Increasing past →
      (∀ now ∈ readings past, Defined now latency) →
      ∃ queue, InOrder latency pDrop past pipe queue) ?_ ?_ path increasing defined
    · intro _ _
      exact ⟨[], rfl, rfl, List.Pairwise.nil, rfl, fun p member => nomatch member⟩
    · intro past pipe e after earlier step increasing defined
      have front : readings past <+: readings (past ++ [e]) := by
        rw [readings_snoc]
        exact List.prefix_append _ _
      obtain ⟨queue, inOrder⟩ := earlier (increasing.sublist front.sublist)
        (fun now member => defined now (front.subset member))
      cases e with
      | send now data source fate => exact inOrder_send inOrder step increasing defined
      | recv now d => exact inOrder_recv inOrder step
  obtain ⟨queue, inOrder⟩ := inOrder
  rw [inOrder.sequence]
  exact List.prefix_append _ _

/-- Two datagrams five nanoseconds ahead, of which one is received. -/
theorem received_prefix_kept_two :
    ∃ (host : Host) (past : List Event) (pipe : Pipe),
      Path (PipeStep host) (opened (constant 5 (.finite 0)) ⟨1, 2, 3, 4⟩) past pipe ∧
        past.filterMap received = [([1], default)] ∧
        past.filterMap kept = [([1], default), ([2], default)] ∧
        past.filterMap received <+: past.filterMap kept := by
  let host : Host := ⟨fun _ rng => (false, rng.advance), fun _ => 0⟩
  let options : FaultOptions := constant 5 (.finite 0)
  let first : Packet := ⟨6, [1], default⟩
  let second : Packet := ⟨7, [2], default⟩
  let rng : Xoshiro := ⟨1, 2, 3, 4⟩
  have sent : PipeStep host (opened options rng) (.send 1 [1] default (.queued 5 0 []))
      ⟨{first}, options, Xoshiro.advance^[3] rng⟩ := ⟨1, by decide +kernel⟩
  have again : PipeStep host ⟨{first}, options, Xoshiro.advance^[3] rng⟩
      (.send 2 [2] default (.queued 5 0 []))
      ⟨{second, first}, options, Xoshiro.advance^[6] rng⟩ := ⟨1, by decide +kernel⟩
  have taken : PipeStep host ⟨{second, first}, options, Xoshiro.advance^[6] rng⟩
      (.recv 6 ([1], default)) ⟨{second}, options, Xoshiro.advance^[6] rng⟩ :=
    ⟨first, by decide +kernel⟩
  have path := ((Path.start.snoc sent).snoc again).snoc taken
  let past : List Event := [.send 1 [1] default (.queued 5 0 []),
    .send 2 [2] default (.queued 5 0 []), .recv 6 ([1], default)]
  have readings_eq : readings past = [1, 2] := rfl
  have increasing : Increasing past := by
    rw [Increasing, readings_eq]
    decide
  have defined : ∀ now ∈ readings past, Defined now 5 := by
    rw [readings_eq]
    simp [Defined]
  exact ⟨host, past, _, path, rfl, rfl, received_prefix_kept path increasing defined⟩

end ConstantLatency
