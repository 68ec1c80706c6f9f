import Redstone.DatagramPipe
import Redstone.UniformSampling

/-!
# What a configuration lets the sampling do

`parse_config` checks nothing, so the sampling of a send meets whatever the file says. The
samplings of a send are listed one by one here: the latencies it draws, a division by zero
where a latency would be drawn from an empty range, and the chances `gen_bool` is asked
about, which it asserts to lie between zero and one.
-/

namespace SamplingSafety

open MachineWords Generators FaultSampling DatagramPipe
open UniformSampling (uniformOn_latency)

/-- The values of the table `net`, absent if a key is missing or does not convert. -/
structure NetTable where
  minLatencyNs : Option CInt
  maxLatencyNs : Option CInt
  replayChance : Option Double
  dropChance : Option Double

/-- `value_or` takes the type of its default, so the latencies are of type `int`. -/
def parseConfig (net : NetTable) : FaultOptions where
  minLatency := (net.minLatencyNs.getD 0).signExtend 64
  maxLatency := (net.maxLatencyNs.getD 0).signExtend 64
  pDrop := net.dropChance.getD (.finite 0)
  pReplay := net.replayChance.getD (.finite 0)

inductive Sampling where
  | latency (l : I64)
  | dividedByZero
  | chance (p : Double)
  deriving DecidableEq

/-- What `gen_bool` asserts. -/
def InUnit : Double → Prop
  | .finite q => 0 ≤ q ∧ q ≤ 1
  | _ => False

/-- The calls of `gen_bool` in `replay_count`. -/
def chances (o : FaultOptions) (host : Host) : (fuel : Nat) → Xoshiro → List Sampling
  | 0, _ => []
  | fuel + 1, rng =>
    let (again, rng) := genBool host rng o.pReplay
    .chance o.pReplay :: if again then chances o host fuel rng else []

/-- The latencies drawn for `left` replays. -/
def replaySamplings (o : FaultOptions) : (left : Nat) → Xoshiro → List Sampling
  | 0, _ => []
  | left + 1, rng =>
    match o.latency rng with
    | none => [.dividedByZero]
    | some (l, rng) => .latency l :: replaySamplings o left rng

/-- The samplings of a send in their order, up to a division by zero; the replay loop is
followed for `fuel` rounds. -/
def samplings (o : FaultOptions) (host : Host) (fuel : Nat) (rng : Xoshiro) : List Sampling :=
  let (drop, rng) := o.shouldDrop host rng
  if drop then []
  else
    match o.latency rng with
    | none => [.dividedByZero]
    | some (l, rng) =>
      .latency l :: (chances o host fuel rng ++
        match o.replayCount host fuel rng 0 with
        | none => []
        | some (count, rng) => replaySamplings o count rng)

/-- The sampling does not fail. -/
def Sampling.Safe (o : FaultOptions) : Sampling → Prop
  | .latency l => o.minLatency.toInt ≤ l.toInt ∧ l.toInt ≤ o.maxLatency.toInt
  | .dividedByZero => False
  | .chance p => InUnit p

/-! ## The samplings are those of the send -/

theorem replaySamplings_eq {o : FaultOptions} {left : Nat} :
    ∀ {rng after : Xoshiro} {latencies : List I64},
      replayLatencies o left rng = some (latencies, after) →
      replaySamplings o left rng = latencies.map .latency := by
  induction left with
  | zero =>
    intro rng after latencies drawn
    cases drawn
    rfl
  | succ left ih =>
    intro rng after latencies drawn
    simp only [replayLatencies, Option.bind_eq_bind, Option.bind_eq_some_iff] at drawn
    obtain ⟨⟨l, next⟩, first, ⟨others, last⟩, rest, result⟩ := drawn
    obtain ⟨rfl, rfl⟩ := Prod.mk.inj (Option.some.inj result)
    simp only [replaySamplings, first, ih rest, List.map_cons]

theorem chances_eq {o : FaultOptions} {host : Host} {fuel : Nat} :
    ∀ {rng : Xoshiro} {n : Nat} {counted : Nat × Xoshiro},
      o.replayCount host fuel rng n = some counted →
      n ≤ counted.1 ∧
        chances o host fuel rng = List.replicate (counted.1 - n + 1) (.chance o.pReplay) := by
  induction fuel with
  | zero =>
    intro rng n counted ended
    cases ended
  | succ fuel ih =>
    intro rng n counted ended
    rcases draw : genBool host rng o.pReplay with ⟨again, after⟩
    cases again with
    | true =>
      simp only [FaultOptions.replayCount, draw, if_true] at ended
      obtain ⟨more, rest⟩ := ih ended
      refine ⟨Nat.le_of_succ_le more, ?_⟩
      have count : counted.1 - n + 1 = counted.1 - (n + 1) + 1 + 1 := by omega
      rw [count, List.replicate_succ, ← rest]
      simp only [chances, draw, if_true]
    | false =>
      simp only [FaultOptions.replayCount, draw, Bool.false_eq_true, if_false] at ended
      obtain rfl := Option.some.inj ended
      refine ⟨Nat.le_refl _, ?_⟩
      rw [Nat.sub_self]
      simp only [chances, draw, Bool.false_eq_true, if_false]
      rfl

/-- A send that returns with a queued datagram drew its latency, its replay count and the
latencies of its replays. -/
theorem samplings_of_drawFate {o : FaultOptions} {host : Host} {fuel : Nat}
    {rng after : Xoshiro} {latency : I64} {count : Nat} {replays : List I64}
    (drawn : drawFate o host fuel rng = some (.queued latency count replays, after)) :
    samplings o host fuel rng =
      .latency latency :: (List.replicate (count + 1) (.chance o.pReplay) ++
        replays.map .latency) := by
  rcases drawFate_cases drawn with ⟨_, dropped⟩ |
    ⟨kept, delay, counted, replays', keep, delayed, counting, rest, fate⟩
  · cases dropped
  · obtain ⟨rfl, rfl, rfl⟩ := Fate.queued.inj fate
    obtain ⟨_, asked⟩ := chances_eq counting
    simp only [samplings, keep, Bool.false_eq_true, if_false, delayed, counting, asked,
      replaySamplings_eq rest, Nat.sub_zero]

/-! ## When the sampling is safe -/

/-- From an ordered range a latency is drawn, and it lies in the range. -/
theorem latency_inside {o : FaultOptions} (ordered : o.minLatency.toInt ≤ o.maxLatency.toInt)
    (room : o.maxLatency.toInt < 2 ^ 63 - 1) (rng : Xoshiro) :
    ∃ l after, o.latency rng = some (l, after) ∧ o.minLatency.toInt ≤ l.toInt ∧
      l.toInt ≤ o.maxLatency.toInt := by
  obtain ⟨l, drawn, inside⟩ := (uniformOn_latency ordered room).lands rng
  exact ⟨l, rng.next.2, drawn, inside⟩

theorem safe_replaySamplings {o : FaultOptions}
    (ordered : o.minLatency.toInt ≤ o.maxLatency.toInt)
    (room : o.maxLatency.toInt < 2 ^ 63 - 1) (left : Nat) (rng : Xoshiro) :
    ∀ s ∈ replaySamplings o left rng, s.Safe o := by
  induction left generalizing rng with
  | zero =>
    intro s member
    cases member
  | succ left ih =>
    obtain ⟨l, after, drawn, inside⟩ := latency_inside ordered room rng
    intro s member
    simp only [replaySamplings, drawn] at member
    rcases List.mem_cons.mp member with rfl | rest
    · exact inside
    · exact ih after s rest

theorem safe_chances {o : FaultOptions} {host : Host} (unit : InUnit o.pReplay) (fuel : Nat)
    (rng : Xoshiro) : ∀ s ∈ chances o host fuel rng, s.Safe o := by
  induction fuel generalizing rng with
  | zero =>
    intro s member
    cases member
  | succ fuel ih =>
    intro s member
    rcases draw : genBool host rng o.pReplay with ⟨again, after⟩
    simp only [chances, draw] at member
    rcases List.mem_cons.mp member with rfl | rest
    · exact unit
    · cases again with
      | true => exact ih after s rest
      | false => cases rest

/-- The samplings of a send are all safe exactly if it is dropped, or the latencies are
ordered and the replay chance is one that `gen_bool` accepts. -/
theorem samplings_safe_iff {o : FaultOptions} (room : o.maxLatency.toInt < 2 ^ 63 - 1)
    (host : Host) (rng : Xoshiro) :
    (∀ fuel, ∀ s ∈ samplings o host fuel rng, s.Safe o) ↔
      (o.shouldDrop host rng).1 = true ∨
        (o.minLatency.toInt ≤ o.maxLatency.toInt ∧ InUnit o.pReplay) := by
  rcases drop : o.shouldDrop host rng with ⟨dropped, kept⟩
  cases dropped with
  | true =>
    refine ⟨fun _ => Or.inl rfl, fun _ fuel s member => ?_⟩
    simp only [samplings, drop, if_true] at member
    cases member
  | false =>
    constructor
    · intro safe
      refine Or.inr ?_
      -- one round of the replay loop asks about the chance
      have once := safe 1
      simp only [samplings, drop, Bool.false_eq_true, if_false] at once
      cases drawn : o.latency kept with
      | none =>
        simp only [drawn] at once
        exact (once _ (List.mem_singleton_self _)).elim
      | some first =>
        obtain ⟨l, after⟩ := first
        simp only [drawn] at once
        have latency := once (.latency l) List.mem_cons_self
        have asked : Sampling.chance o.pReplay ∈ chances o host 1 after := List.mem_cons_self
        have chance := once (.chance o.pReplay)
          (List.mem_cons_of_mem _ (List.mem_append_left _ asked))
        exact ⟨Int.le_trans latency.1 latency.2, chance⟩
    · rintro (impossible | ⟨ordered, unit⟩) fuel s member
      · cases impossible
      · obtain ⟨l, after, drawn, inside⟩ := latency_inside ordered room kept
        simp only [samplings, drop, Bool.false_eq_true, if_false, drawn] at member
        rcases List.mem_cons.mp member with rfl | rest
        · exact inside
        · rcases List.mem_append.mp rest with asked | replayed
          · exact safe_chances unit fuel after s asked
          · cases counted : o.replayCount host fuel after 0 with
            | none =>
              rw [counted] at replayed
              cases replayed
            | some pair =>
              rw [counted] at replayed
              exact safe_replaySamplings ordered room pair.1 pair.2 s replayed

theorem maxLatency_room (net : NetTable) : (parseConfig net).maxLatency.toInt < 2 ^ 63 - 1 := by
  have narrow := BitVec.toInt_lt (x := net.maxLatencyNs.getD 0)
  have same : (parseConfig net).maxLatency.toInt = (net.maxLatencyNs.getD 0).toInt :=
    BitVec.toInt_signExtend_of_le (by decide)
  rw [same]
  omega

theorem ordered_parseConfig (net : NetTable) :
    (parseConfig net).minLatency.toInt ≤ (parseConfig net).maxLatency.toInt ↔
      (net.minLatencyNs.getD 0).toInt ≤ (net.maxLatencyNs.getD 0).toInt := by
  have same : ∀ v : CInt, (v.signExtend 64).toInt = v.toInt :=
    fun v => BitVec.toInt_signExtend_of_le (by decide)
  rw [parseConfig, same, same]

/-- For every configuration and every state of the generator: no division by zero, no
failing assertion and no latency outside the configured range, exactly if the datagram is
dropped, or the minimum is at most the maximum and the replay chance is in the unit
interval. -/
theorem config_safe_iff (net : NetTable) (host : Host) (rng : Xoshiro) :
    (∀ fuel, ∀ s ∈ samplings (parseConfig net) host fuel rng, s.Safe (parseConfig net)) ↔
      ((parseConfig net).shouldDrop host rng).1 = true ∨
        ((net.minLatencyNs.getD 0).toInt ≤ (net.maxLatencyNs.getD 0).toInt ∧
          InUnit (net.replayChance.getD (.finite 0))) := by
  rw [samplings_safe_iff (maxLatency_room net), ordered_parseConfig]
  rfl

/-- With a minimum of one nanosecond and no maximum the first send divides by zero, with a
minimum of two it draws a latency outside the range, and with a replay chance of two it
asks `gen_bool` about that. -/
theorem config_not_safe :
    ∃ (host : Host) (rng : Xoshiro),
      .dividedByZero ∈ samplings (parseConfig ⟨some 1, none, none, none⟩) host 1 rng ∧
        (∃ l, .latency l ∈ samplings (parseConfig ⟨some 2, none, none, none⟩) host 1 rng ∧
          ¬(Sampling.latency l).Safe (parseConfig ⟨some 2, none, none, none⟩)) ∧
        .chance (.finite 2) ∈
          samplings (parseConfig ⟨none, none, some (.finite 2), none⟩) host 1 rng ∧
        ¬InUnit (.finite 2) := by
  let host : Host := ⟨fun _ rng => (false, rng.advance), fun _ => 0⟩
  let rng : Xoshiro := ⟨1, 2, 3, 4⟩
  refine ⟨host, rng, by decide +kernel, ⟨2, by decide +kernel, ?_⟩, by decide +kernel, ?_⟩
  · rintro ⟨_, above⟩
    exact absurd above (by decide)
  · rintro ⟨_, above⟩
    exact absurd above (by decide)

end SamplingSafety
