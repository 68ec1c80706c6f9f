import Redstone.DatagramPipe
import Redstone.Monitors

/-!
# Waiting for a datagram

The pipe with its lock. Sends run one at a time, under the lock of their socket, and no
recv touches what they draw from, so a send is one step with its draws. A recv that finds
nothing to return sleeps, without a deadline or until the arrival of the packet on top,
and looks again when it has been woken.
-/

namespace PipeWakeup

open MachineWords Generators FaultSampling SocketAddr DatagramPipe Monitors StepRuns Function

inductive Call where
  | send (now : I64) (data : List Byte) (source : Addr)
  | recv

inductive Returned where
  | sent (fate : Fate)
  | received (d : Datagram)

/-- The deadline of a sleeping recv, if it has one. -/
abbrev Deadline := Option I64

/-- A dropped datagram returns before the lock is taken. -/
def Sends (host : Host) (now : I64) (data : List Byte) (source : Addr) (pipe : Pipe)
    (out : Outcome Pipe Returned Deadline) : Prop :=
  ∃ fuel fate after, pipe.send host fuel now data source = some (fate, after) ∧
    out = ⟨after, if fate = .dropped then .none else .one, .leaves (.sent fate)⟩

/-- The body of the loop in `recv`, with any clock reading. -/
inductive Receives (pipe : Pipe) : Outcome Pipe Returned Deadline → Prop where
  | empty (nothing : pipe.packets = 0) : Receives pipe ⟨pipe, .none, .waits none⟩
  | early (now : I64) (p : Packet) (top : pipe.IsTop p) (ahead : now.toInt < p.arrival.toInt) :
      Receives pipe ⟨pipe, .none, .waits (some p.arrival)⟩
  | returns (now : I64) (d : Datagram) (after : Pipe) (received : pipe.Recv now d after) :
      Receives pipe ⟨after, .none, .leaves (.received d)⟩

def datagramPipe (host : Host) : Program Call Pipe Returned Deadline where
  enter
    | .send now data source, pipe, out => Sends host now data source pipe out
    | .recv, pipe, out => Receives pipe out
  resume _ pipe out := Receives pipe out

abbrev PipeEvent (τ : Type) := Monitors.Event τ Call Returned Deadline

variable {τ : Type}

/-- Only one thread receives. -/
def Assigned (receiver : τ) : PipeEvent τ → Prop
  | .enter t .recv _ => t = receiver
  | _ => True

/-- What a sleeping recv relies on: nothing is queued, or nothing that arrives earlier. -/
def Safe : Deadline → Pipe → Prop
  | none, pipe => pipe.packets = 0
  | some deadline, pipe => ∀ p ∈ pipe.packets, deadline.toInt ≤ p.arrival.toInt

theorem safe_receives {pipe : Pipe} {out : Outcome Pipe Returned Deadline}
    (received : Receives pipe out) (k : Deadline) (safe : Safe k pipe) : Safe k out.shared := by
  cases received with
  | empty => exact safe
  | early => exact safe
  | returns now d after received =>
    obtain ⟨p, ⟨member, _⟩, _, _, rfl⟩ := received
    cases k with
    | none =>
      have nothing : pipe.packets = 0 := safe
      rw [nothing] at member
      exact absurd member (Multiset.notMem_zero p)
    | some deadline =>
      intro q queued
      exact safe q (Multiset.mem_of_mem_erase queued)

/-- A recv goes to sleep only where it may. -/
theorem receives_waits {pipe : Pipe} {out : Outcome Pipe Returned Deadline}
    (received : Receives pipe out) {k : Deadline} (waits : out.next = .waits k) :
    Safe k out.shared := by
  cases received with
  | empty nothing =>
    cases waits
    exact nothing
  | early now p top ahead =>
    cases waits
    intro q queued
    exact Int.not_lt.mp (top.2 q queued)
  | returns now d after received => cases waits

/-- A send that does not notify queued nothing. -/
theorem sends_silent {host : Host} {now : I64} {data : List Byte} {source : Addr} {pipe : Pipe}
    {out : Outcome Pipe Returned Deadline} (sent : Sends host now data source pipe out)
    (silent : out.signal = .none) : out.shared.packets = pipe.packets := by
  obtain ⟨fuel, fate, after, sends, rfl⟩ := sent
  obtain ⟨_, _, packets⟩ := send_spec sends
  cases fate with
  | dropped => simpa [Fate.packets] using packets
  | queued latency replayCount replays => cases silent

variable [DecidableEq τ]

/-- Steps of the threads, of which only `receiver` receives. -/
def ThreadStep (host : Host) (receiver : τ) (m : Monitor τ Pipe Deadline) (e : PipeEvent τ)
    (after : Monitor τ Pipe Deadline) : Prop :=
  Step (datagramPipe host) m e after ∧ Assigned receiver e

/-- Only the receiver is ever blocked, and it sleeps only where it may. -/
structure Awaits (receiver : τ) (m : Monitor τ Pipe Deadline) : Prop where
  sole : ∀ t k, (m.status t).blocked = some k → t = receiver
  sound : Sound Safe m

theorem awaits_step {host : Host} {receiver : τ} {m after : Monitor τ Pipe Deadline}
    {e : PipeEvent τ} (awaits : Awaits receiver m) (step : ThreadStep host receiver m e after) :
    Awaits receiver after := by
  obtain ⟨step, assigned⟩ := step
  constructor
  · intro u k blocked
    cases step with
    | @enter t call out status free runs notified =>
      change (update status t out.next.status u).blocked = some k at blocked
      rw [blocked_section notified] at blocked
      by_cases self : u = t
      · rw [if_pos self] at blocked
        cases call with
        | recv => exact self.trans assigned
        | send now data source =>
          obtain ⟨_, _, _, _, rfl⟩ := runs
          cases blocked
      · rw [if_neg self] at blocked
        exact awaits.sole u k blocked
    | @resume t k' out status woken runs notified =>
      change (update status t out.next.status u).blocked = some k at blocked
      rw [blocked_section notified] at blocked
      by_cases self : u = t
      · exact self.trans (awaits.sole t k' (by rw [woken]; rfl))
      · rw [if_neg self] at blocked
        exact awaits.sole u k blocked
    | @wake t k' asleep =>
      change (update m.status t (.woken k') u).blocked = some k at blocked
      rw [blocked_wake asleep] at blocked
      exact awaits.sole u k blocked
  · have sleepers : ∀ u k, m.status u = .asleep k → u = receiver := by
      intro u k asleep
      exact awaits.sole u k (by rw [asleep]; rfl)
    refine sound_step ?_ ?_ ?_ step awaits.sound
    · rintro out k (⟨call, runs⟩ | ⟨_, runs⟩) waits
      · cases call with
        | recv => exact receives_waits runs waits
        | send now data source =>
          obtain ⟨_, _, _, _, rfl⟩ := runs
          cases waits
      · exact receives_waits runs waits
    · rintro out k (⟨call, runs⟩ | ⟨_, runs⟩) silent safe
      · cases call with
        | recv => exact safe_receives runs k safe
        | send now data source =>
          have same := sends_silent runs silent
          cases k with
          | none => exact same.trans safe
          | some deadline =>
            intro p queued
            exact safe p (same ▸ queued)
      · exact safe_receives runs k safe
    · exact fun _ _ _ => ⟨receiver, sleepers⟩

/-- In every reachable state, a receiver that is asleep and was not notified finds nothing
queued, if it sleeps without a deadline, and nothing that arrives before its deadline
otherwise; so when there is a packet to return, its deadline has passed. -/
theorem no_lost_wakeup {host : Host} {options : FaultOptions} {rng : Xoshiro} {receiver : τ}
    {past : List (PipeEvent τ)} {m : Monitor τ Pipe Deadline}
    (path : Path (ThreadStep host receiver) (idle (opened options rng)) past m)
    {k : Deadline} (asleep : m.status receiver = .asleep k) :
    (k = none → m.shared.packets = 0) ∧
      (∀ deadline, k = some deadline →
        ∀ p ∈ m.shared.packets, deadline.toInt ≤ p.arrival.toInt) ∧
      ∀ now d after, m.shared.Recv now d after →
        ∃ deadline, k = some deadline ∧ deadline.toInt ≤ now.toInt := by
  have start : Awaits receiver (idle (opened options rng)) := by
    refine ⟨?_, sound_idle _⟩
    intro t k blocked
    cases blocked
  have awaits := history_invariant (fun _ m => Awaits receiver m) start
    (fun _ _ _ _ => awaits_step) path
  have safe := awaits.sound receiver k asleep
  refine ⟨?_, ?_, ?_⟩
  · rintro rfl
    exact safe
  · rintro deadline rfl
    exact safe
  · rintro now d after ⟨p, ⟨member, _⟩, arrived, _, _⟩
    cases k with
    | none =>
      have nothing : m.shared.packets = 0 := safe
      rw [nothing] at member
      exact absurd member (Multiset.notMem_zero p)
    | some deadline => exact ⟨deadline, rfl, Int.le_trans (safe p member) (Int.not_lt.mp arrived)⟩

/-- A receiver waits at an empty queue, is notified of a datagram that is still on its
way, and sleeps again until it arrives. -/
theorem no_lost_wakeup_early :
    ∃ (host : Host) (past : List (PipeEvent Nat)) (m : Monitor Nat Pipe Deadline),
      Path (ThreadStep host 0) (idle (opened ⟨5, 5, .finite 0, .finite 0⟩ ⟨1, 2, 3, 4⟩)) past m ∧
        m.status 0 = .asleep (some 5) ∧ ∀ p ∈ m.shared.packets, 5 ≤ p.arrival.toInt := by
  let host : Host := ⟨fun _ rng => (false, rng.advance), fun _ => 0⟩
  let options : FaultOptions := ⟨5, 5, .finite 0, .finite 0⟩
  let packet : Packet := ⟨5, [7], default⟩
  let pipe : Pipe := ⟨{packet}, options, Xoshiro.advance^[3] ⟨1, 2, 3, 4⟩⟩
  let s₀ : Nat → Status Deadline := fun _ => .outside
  let s₁ := update s₀ 0 (.asleep none)
  let s₂ := update (update s₁ 0 (.woken none)) 1 .outside
  have nothing : Receives (opened options ⟨1, 2, 3, 4⟩)
      ⟨opened options ⟨1, 2, 3, 4⟩, .none, .waits none⟩ := .empty rfl
  have sent : Sends host 0 [7] default (opened options ⟨1, 2, 3, 4⟩)
      ⟨pipe, .one, .leaves (.sent (.queued 5 0 []))⟩ :=
    ⟨1, .queued 5 0 [], pipe, by decide +kernel, rfl⟩
  have early : Receives pipe ⟨pipe, .none, .waits (some 5)⟩ :=
    .early 0 packet (by decide) (by decide)
  have waits : ThreadStep host 0 (idle (opened options ⟨1, 2, 3, 4⟩))
      (.enter 0 .recv (.waits none)) ⟨opened options ⟨1, 2, 3, 4⟩, s₁⟩ :=
    ⟨.enters rfl nothing .none, rfl⟩
  have sends : ThreadStep host 0 ⟨opened options ⟨1, 2, 3, 4⟩, s₁⟩
      (.enter 1 (.send 0 [7] default) (.leaves (.sent (.queued 5 0 [])))) ⟨pipe, s₂⟩ :=
    ⟨.enters rfl sent (.one 0 none rfl), trivial⟩
  have looks : ThreadStep host 0 ⟨pipe, s₂⟩ (.resume 0 none (.waits (some 5)))
      ⟨pipe, update s₂ 0 (.asleep (some 5))⟩ := ⟨.resumes rfl early .none, trivial⟩
  have path := ((Path.start.snoc waits).snoc sends).snoc looks
  exact ⟨host, _, _, path, rfl, (no_lost_wakeup path (k := some 5) rfl).2.1 5 rfl⟩

/-! ## One call after another -/

/-- The datagram that a recv returns. -/
def received : PipeEvent τ → Option Datagram
  | .enter _ _ (.leaves (.received d)) => some d
  | .resume _ _ (.leaves (.received d)) => some d
  | _ => none

/-- The pipe is in a state that whole sends and recvs reach, and those recvs return what
the threads received. -/
def Serial (host : Host) (start : Pipe) (past : List (PipeEvent τ)) (pipe : Pipe) : Prop :=
  ∃ events, Path (PipeStep host) start events pipe ∧
    returned events = (past.filterMap received : Multiset Datagram)

omit [DecidableEq τ] in
theorem serial_idle {host : Host} {start pipe : Pipe} {past : List (PipeEvent τ)}
    {e : PipeEvent τ} (serial : Serial host start past pipe) (silent : received e = none) :
    Serial host start (past ++ [e]) pipe := by
  obtain ⟨events, path, same⟩ := serial
  refine ⟨events, path, ?_⟩
  rw [filterMap_snoc, silent, Option.toList_none, List.append_nil, same]

omit [DecidableEq τ] in
theorem serial_snoc {host : Host} {start pipe after : Pipe} {past : List (PipeEvent τ)}
    {e : PipeEvent τ} {f : DatagramPipe.Event} (serial : Serial host start past pipe)
    (step : PipeStep host pipe f after)
    (label : f.returned = ((received e).toList : Multiset Datagram)) :
    Serial host start (past ++ [e]) after := by
  obtain ⟨events, path, same⟩ := serial
  refine ⟨events ++ [f], path.snoc step, ?_⟩
  rw [returned_snoc, same, label, filterMap_snoc, Multiset.coe_add]

omit [DecidableEq τ] in
theorem serial_receives {host : Host} {start pipe : Pipe} {past : List (PipeEvent τ)}
    {out : Outcome Pipe Returned Deadline} {e : PipeEvent τ}
    (serial : Serial host start past pipe) (receives : Receives pipe out)
    (label : received e = match out.next with
      | .leaves (.received d) => some d
      | _ => none) : Serial host start (past ++ [e]) out.shared := by
  cases receives with
  | empty => exact serial_idle serial label
  | early => exact serial_idle serial label
  | returns now d after received =>
    exact serial_snoc serial (f := .recv now d) received (by rw [label]; rfl)

/-- Whatever the threads do, it amounts to whole sends and recvs one after another. -/
theorem serial_path {host : Host} {options : FaultOptions} {rng : Xoshiro} {receiver : τ}
    {past : List (PipeEvent τ)} {m : Monitor τ Pipe Deadline}
    (path : Path (ThreadStep host receiver) (idle (opened options rng)) past m) :
    Serial host (opened options rng) past m.shared := by
  refine history_invariant (fun past m => Serial host (opened options rng) past m.shared)
    ⟨[], .start, rfl⟩ ?_ path
  rintro past m e after serial ⟨step, _⟩
  cases step with
  | @enter t call out status free runs notified =>
    cases call with
    | recv =>
      refine serial_receives serial runs ?_
      rcases out.next with ⟨sent | d⟩ | k <;> rfl
    | send now data source =>
      obtain ⟨fuel, fate, after, sends, rfl⟩ := runs
      exact serial_snoc serial (f := .send now data source fate) ⟨fuel, sends⟩ rfl
  | @resume t k out status woken runs notified =>
    refine serial_receives serial runs ?_
    rcases out.next with ⟨sent | d⟩ | k <;> rfl
  | wake asleep => exact serial_idle serial rfl

end PipeWakeup
