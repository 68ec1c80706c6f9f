import Redstone.DatagramPipe
import Redstone.FdTable

/-!
# Seeds of datagram sockets

Every datagram socket draws its seed from the one generator of the simulator when it is
constructed, so its seed depends on how many datagram sockets all replicas constructed
before. The replicas' `socket` calls run one at a time here, in any order.
-/

namespace SocketSeeds

open MachineWords Generators FaultSampling DatagramPipe FdTable StepRuns Function

abbrev ReplicaId := Nat

inductive AddressFamily where
  | ipv4
  | unix
  deriving DecidableEq

inductive Socket where
  | stream (af : AddressFamily)
  | datagram (af : AddressFamily) (inbound : Pipe)

def AF_UNIX : CInt := 1
def AF_INET : CInt := 2
def SOCK_STREAM : CInt := 1
def SOCK_DGRAM : CInt := 2

/-- The part of the simulator and its replicas that `socket` reads and changes. -/
structure Simulation where
  rng : Xoshiro
  netFaults : FaultOptions
  fdTables : ReplicaId → Table Socket

/-- The constructor of `simulator`, and replicas that opened nothing yet. -/
def start (seed : U64) (netFaults : FaultOptions) : Simulation :=
  ⟨(seedFrom SplitMix.next ⟨seed, defaultGamma⟩).1, netFaults, fun _ => FdTable.empty⟩

/-- One replica's call of `socket`, with the arguments it narrows to `int`. -/
structure SocketCall where
  replica : ReplicaId
  domain : U64
  type : U64
  deriving DecidableEq

/-- What a call returns to the program, and the socket object it constructed. -/
structure Outcome where
  replica : ReplicaId
  result : U64
  sock : Option Socket

def family (domain : CInt) : Option AddressFamily :=
  if domain = AF_INET then some .ipv4 else if domain = AF_UNIX then some .unix else none

/-- The switch over the type. A datagram socket seeds its pipe while it is constructed. -/
def makeSocket (sim : Simulation) (af : AddressFamily) (type : CInt) :
    Option (Socket × Simulation) :=
  if type = SOCK_STREAM then some (.stream af, sim)
  else if type = SOCK_DGRAM then
    let (seed, rng) := seedFrom Xoshiro.next sim.rng
    some (.datagram af (opened sim.netFaults seed), { sim with rng })
  else none

/-- `sys_socket`. An object that finds no free descriptor is destroyed again. -/
def sysSocket (sim : Simulation) (call : SocketCall) : Outcome × Simulation :=
  match family (call.domain.setWidth 32) with
  | none => (⟨call.replica, failure 64 EINVAL, none⟩, sim)
  | some af =>
    match makeSocket sim af (call.type.setWidth 32) with
    | none => (⟨call.replica, failure 64 EINVAL, none⟩, sim)
    | some (sock, sim) =>
      let (fd, table) := (sim.fdTables call.replica).insert (some sock)
      let sim := { sim with fdTables := update sim.fdTables call.replica table }
      if fd.toInt < 0 then (⟨call.replica, failure 64 EMFILE, some sock⟩, sim)
      else (⟨call.replica, fd.signExtend 64, some sock⟩, sim)

/-- The state that seeds the pipe of the datagram socket of a replica's call. -/
def seedFor (r : ReplicaId) (o : Outcome) : Option Xoshiro :=
  match o.sock with
  | some (.datagram _ inbound) => if o.replica = r then some inbound.rng else none
  | _ => none

/-- The seeds of the datagram sockets of one replica, in the order of their creation. -/
def seeds (r : ReplicaId) (sim : Simulation) (calls : List SocketCall) : List Xoshiro :=
  (outputs sysSocket sim calls).filterMap (seedFor r)

/-- The call constructs a datagram socket. -/
def isDatagram (call : SocketCall) : Bool :=
  (family (call.domain.setWidth 32)).isSome && call.type.setWidth 32 == SOCK_DGRAM

/-- The ranks of one replica's datagram sockets among those of all replicas, the first
call of the list having rank `n`. -/
def ranksFrom (r : ReplicaId) : (n : Nat) → List SocketCall → List Nat
  | _, [] => []
  | n, call :: rest =>
    if isDatagram call then
      if call.replica = r then n :: ranksFrom r (n + 1) rest else ranksFrom r (n + 1) rest
    else ranksFrom r n rest

def ranks (r : ReplicaId) (calls : List SocketCall) : List Nat := ranksFrom r 0 calls

theorem sysSocket_made {sim after : Simulation} {call : SocketCall} {af : AddressFamily}
    {sock : Socket} (known : family (call.domain.setWidth 32) = some af)
    (made : makeSocket sim af (call.type.setWidth 32) = some (sock, after)) :
    (sysSocket sim call).2.rng = after.rng ∧
      (sysSocket sim call).1.replica = call.replica ∧
      (sysSocket sim call).1.sock = some sock := by
  simp only [sysSocket, known, made]
  by_cases full : ((after.fdTables call.replica).insert (some sock)).1.toInt < 0
  · simp only [if_pos full, and_self]
  · simp only [if_neg full, and_self]

/-- A call that constructs a datagram socket draws four words, which seed its pipe. -/
theorem sysSocket_datagram {call : SocketCall} (datagram : isDatagram call = true)
    (sim : Simulation) :
    (sysSocket sim call).2.rng = Xoshiro.advance^[4] sim.rng ∧
      ∀ r, seedFor r (sysSocket sim call).1 =
        if call.replica = r then some (seedFrom Xoshiro.next sim.rng).1 else none := by
  rw [isDatagram, Bool.and_eq_true, Option.isSome_iff_exists, beq_iff_eq] at datagram
  obtain ⟨⟨af, known⟩, type⟩ := datagram
  have other : ¬SOCK_DGRAM = SOCK_STREAM := by decide
  have made : makeSocket sim af (call.type.setWidth 32) =
      some (.datagram af (opened sim.netFaults (seedFrom Xoshiro.next sim.rng).1),
        { sim with rng := (seedFrom Xoshiro.next sim.rng).2 }) := by
    rw [type, makeSocket, if_neg other, if_pos rfl]
  obtain ⟨rng, replica, sock⟩ := sysSocket_made known made
  refine ⟨rng, ?_⟩
  intro r
  simp only [seedFor, sock, replica]
  rfl

/-- Any other call leaves the generator alone. -/
theorem sysSocket_other {call : SocketCall} (other : isDatagram call = false)
    (sim : Simulation) :
    (sysSocket sim call).2.rng = sim.rng ∧ ∀ r, seedFor r (sysSocket sim call).1 = none := by
  cases known : family (call.domain.setWidth 32) with
  | none => simp only [sysSocket, known, seedFor, and_self, implies_true]
  | some af =>
    have type : ¬call.type.setWidth 32 = SOCK_DGRAM := by
      simpa [isDatagram, known] using other
    by_cases stream : call.type.setWidth 32 = SOCK_STREAM
    · have made : makeSocket sim af (call.type.setWidth 32) = some (.stream af, sim) := by
        rw [makeSocket, if_pos stream]
      obtain ⟨rng, _, sock⟩ := sysSocket_made known made
      refine ⟨rng, ?_⟩
      intro r
      simp only [seedFor, sock]
    · have made : makeSocket sim af (call.type.setWidth 32) = none := by
        rw [makeSocket, if_neg stream, if_neg type]
      simp only [sysSocket, known, made, seedFor, and_self, implies_true]

/-- The seed of each datagram socket is drawn at the point of the simulator's stream that
its rank gives. -/
theorem seeds_eq (r : ReplicaId) (origin : Xoshiro) (calls : List SocketCall) :
    ∀ (n : Nat) (sim : Simulation), sim.rng = Xoshiro.advance^[4 * n] origin →
      seeds r sim calls = (ranksFrom r n calls).map fun m =>
        (seedFrom Xoshiro.next (Xoshiro.advance^[4 * m] origin)).1 := by
  induction calls with
  | nil =>
    intro n sim _
    rfl
  | cons call rest ih =>
    intro n sim here
    by_cases datagram : isDatagram call = true
    · obtain ⟨drawn, seeded⟩ := sysSocket_datagram datagram sim
      have next : (sysSocket sim call).2.rng = Xoshiro.advance^[4 * (n + 1)] origin := by
        rw [drawn, here, ← iterate_add_apply, Nat.mul_succ, Nat.add_comm]
      have tail := ih (n + 1) _ next
      rw [seeds] at tail ⊢
      rw [outputs_cons, List.filterMap_cons, seeded r, ranksFrom, if_pos datagram]
      by_cases own : call.replica = r
      · simp only [if_pos own, tail, here, List.map_cons]
      · simp only [if_neg own, tail]
    · rw [Bool.not_eq_true] at datagram
      obtain ⟨kept, silent⟩ := sysSocket_other datagram sim
      have tail := ih n _ (kept.trans here)
      rw [seeds] at tail ⊢
      rw [outputs_cons, List.filterMap_cons, silent r, ranksFrom, datagram]
      exact tail

/-- How many datagram sockets a replica constructs is in its own calls. -/
theorem length_ranksFrom (r : ReplicaId) (calls : List SocketCall) :
    ∀ n, (ranksFrom r n calls).length =
      ((calls.filter fun call => call.replica = r).filter isDatagram).length := by
  induction calls with
  | nil =>
    intro n
    rfl
  | cons call rest ih =>
    intro n
    by_cases datagram : isDatagram call = true <;> by_cases own : call.replica = r <;>
      simp [ranksFrom, datagram, own, ih]

/-- From `x`, the generator is in the same state after `m` and after `n` sockets. -/
def Returns (x : Xoshiro) (m n : Nat) : Prop :=
  Xoshiro.advance^[4 * (m - n + (n - m))] x = x

theorem iterate_eq_iff_returns (x : Xoshiro) (m n : Nat) :
    Xoshiro.advance^[4 * m] x = Xoshiro.advance^[4 * n] x ↔ Returns x m n := by
  rcases Nat.le_total m n with le | le
  · have split : 4 * n = 4 * (m - n + (n - m)) + 4 * m := by omega
    rw [split, eq_comm]
    exact iterate_add_eq_iterate Xoshiro.advance_injective
  · have split : 4 * m = 4 * (m - n + (n - m)) + 4 * n := by omega
    rw [split]
    exact iterate_add_eq_iterate Xoshiro.advance_injective

theorem getElem?_seeds (seed : U64) (netFaults : FaultOptions) (r : ReplicaId)
    (calls : List SocketCall) (k : Nat) :
    (seeds r (start seed netFaults) calls)[k]? = (ranks r calls)[k]?.map fun m =>
      (seedFrom Xoshiro.next (Xoshiro.advance^[4 * m] (start seed netFaults).rng)).1 := by
  rw [seeds_eq r (start seed netFaults).rng calls 0 _ rfl, List.getElem?_map]
  rfl

/-- Two interleavings of the same calls of each replica seed every socket alike exactly
when each socket has the same rank among all in both, or the generator comes back to its
initial state after as many draws as lie between the two ranks. -/
theorem seeds_reproduced_iff (seed : U64) (netFaults : FaultOptions)
    (first second : List SocketCall)
    (interleaved : ∀ r, (first.filter fun call => call.replica = r) =
      second.filter fun call => call.replica = r) :
    (∀ (r : ReplicaId) (k : Nat), (seeds r (start seed netFaults) first)[k]? =
        (seeds r (start seed netFaults) second)[k]?) ↔
      ∀ (r : ReplicaId) (k m n : Nat), (ranks r first)[k]? = some m →
        (ranks r second)[k]? = some n → Returns (start seed netFaults).rng m n := by
  constructor
  · intro same r k m n hm hn
    have drawn := same r k
    rw [getElem?_seeds, getElem?_seeds, hm, hn] at drawn
    exact (iterate_eq_iff_returns _ m n).mp
      (Xoshiro.seedFrom_injective (Option.some.inj drawn))
  · intro returns r k
    have length : (ranks r first).length = (ranks r second).length := by
      rw [ranks, ranks, length_ranksFrom, length_ranksFrom, interleaved r]
    rw [getElem?_seeds, getElem?_seeds]
    cases hm : (ranks r first)[k]? with
    | none =>
      rw [List.getElem?_eq_none_iff, length] at hm
      rw [List.getElem?_eq_none_iff.mpr hm]
    | some m =>
      obtain ⟨inside, _⟩ := List.getElem?_eq_some_iff.mp hm
      rw [length] at inside
      have hn := List.getElem?_eq_getElem inside
      have alike := (iterate_eq_iff_returns _ _ _).mpr (returns r k m _ hm hn)
      simp only [hn, Option.map_some, alike]

/-- The seed of the reproducibility demo, one datagram socket in each of two replicas. -/
theorem scheduling_changes_seeds :
    ∃ (seed : U64) (first second : List SocketCall) (r : ReplicaId) (k : Nat),
      (∀ r, (first.filter fun call => call.replica = r) =
        second.filter fun call => call.replica = r) ∧
      (seeds r (start seed defaultFaults) first)[k]? ≠
        (seeds r (start seed defaultFaults) second)[k]? := by
  refine ⟨0xfeedbeef, [⟨0, 1, 2⟩, ⟨1, 1, 2⟩], [⟨1, 1, 2⟩, ⟨0, 1, 2⟩], 0, 0, ?_, ?_⟩
  · intro r
    rcases r with _ | _ | r <;> simp
  · decide +kernel

/-- A stream socket created in between moves no rank, so the seed is reproduced. -/
theorem seeds_reproduced_same_ranks :
    (seeds 1 (start 0xfeedbeef defaultFaults) [⟨0, 1, 2⟩, ⟨1, 2, 1⟩, ⟨1, 2, 2⟩])[0]? =
      (seeds 1 (start 0xfeedbeef defaultFaults) [⟨1, 2, 1⟩, ⟨0, 1, 2⟩, ⟨1, 2, 2⟩])[0]? := by
  refine (seeds_reproduced_iff 0xfeedbeef defaultFaults [⟨0, 1, 2⟩, ⟨1, 2, 1⟩, ⟨1, 2, 2⟩]
    [⟨1, 2, 1⟩, ⟨0, 1, 2⟩, ⟨1, 2, 2⟩] ?_).mpr ?_ 1 0
  · intro r
    rcases r with _ | _ | r <;> simp
  · intro r k m n hm hn
    have same : ranks r [⟨0, 1, 2⟩, ⟨1, 2, 1⟩, ⟨1, 2, 2⟩] =
        ranks r [⟨1, 2, 1⟩, ⟨0, 1, 2⟩, ⟨1, 2, 2⟩] := by
      rcases r with _ | _ | r
      · decide
      · decide
      · simp [ranks, ranksFrom]
    rw [same, hn] at hm
    obtain rfl := Option.some.inj hm
    rw [Returns, Nat.sub_self]
    rfl

end SocketSeeds
