import Redstone.OwnNumbers
import Redstone.SocketLinks
import Redstone.SplitSeeding

/-!
# Hooks of several replicas at the same time

Each replica has a thread of its own, and only the network, the objects and the
simulator's generator are common to them. `sys_sendto` and `sys_connect` use them twice:
they look an address up, and then use the object that they found. In between, and until
it returns, the hook has a shared pointer to that object, which outlives its descriptor.
`sys_socket` draws four times from the generator for a datagram socket. Nothing guards the
generator, so what a thread reads from it while another one draws can be anything.
-/

namespace RunningHooks

open MachineWords SocketAddr Network FdTable ParseAddr
open SocketSeeds (ReplicaId)
open TraceLoop (Args HookResult)
open Syscalls HookOutcomes HookEffects SoleOwners SocketLifetimes StepRuns Function
open Generators (Xoshiro)
open SplitSeeding
open SocketLinks (net_effect resolve_destroy)
open OwnNumbers (get_of_live tables_step)

/-- The hooks that look up an address. -/
inductive Seeker where
  | sendto
  | connect
  deriving DecidableEq

def Seeker.call : Seeker → Call
  | .sendto => .sendto
  | .connect => .connect

/-- The arguments that hold the address and its length. -/
def Seeker.address : Seeker → Args → U64 × U64
  | .sendto, args => (args.get 4, args.get 5)
  | .connect, args => (args.get 1, args.get 2)

/-- Whether the cast of the own object succeeds. -/
def Seeker.casts : Seeker → Descriptor → Bool
  | .sendto, d => d.asDatagram.isSome
  | .connect, d => d.isSocket

/-- `sys_sendto` with `send_to`, or `sys_connect`, until the network returns an object: the
own object, and that one. -/
def ask (seeker : Seeker) (stack : Stack) (sim : Sim) (r : ReplicaId) (args : Args) :
    Option (SocketId × SocketId × Sim) :=
  let fd : CInt := (args.get 0).setWidth 32
  if isSimulated fd = false then none
  else
    match parseAddr (sim.readMemory r) stack (seeker.address args).1
        (seeker.address args).2.toNat with
    | .error _ => none
    | .ok addr =>
      let (sock, sim) := sim.lookup r fd
      match sock with
      | none => none
      | some own =>
        if seeker.casts (sim.objects own) = false then none
        else
          let (found, net) := sim.net.get addr
          match found with
          | none => none
          | some target => some (own, target, { sim with net })

/-- The rest of `send_to`. -/
def finishSendto (around : Surroundings) (sim : Sim) (r : ReplicaId) (args : Args)
    (target : SocketId) : Option (HookResult × Sim) :=
  let bytes := args.get 2
  match (sim.objects target).asDatagram with
  | none => some (failed ECONNREFUSED, sim)
  | some sock =>
    if 2 ^ 63 ≤ bytes.toNat then none
    else
      let (res, buf) := ChildMemory.readMemory (sim.memories r) (args.get 1)
        (List.replicate bytes.toNat 0)
      if res.toInt < 0 then some (handledInt res, sim)
      else
        match sock.inbound.send around.host around.fuel around.now buf default with
        | none => none
        | some (_, pipe) =>
          some (.handled bytes, sim.setObject target (.datagram { sock with inbound := pipe }))

/-- The rest of `sys_connect`. -/
def finishConnect (sim : Sim) (own target : SocketId) : HookResult × Sim :=
  match (sim.objects own).asStream with
  | none => (failed EOPNOTSUPP, sim)
  | some s2 =>
    match (sim.objects target).asStream with
    | none => (failed ECONNREFUSED, sim)
    | some peer2 =>
      if peer2.listening then (failed ECONNREFUSED, sim)
      else
        let (rc, s2) := s2.connect target peer2.af
        (handledInt rc, sim.setObject own (.stream s2))

def finish (around : Surroundings) (sim : Sim) (r : ReplicaId) (args : Args)
    (own target : SocketId) : Seeker → Option (HookResult × Sim)
  | .sendto => finishSendto around sim r args target
  | .connect => some (finishConnect sim own target)

/-- Where a hook is that does not run without a break: it found an object at an address, it
used that and has not returned, or it has drawn some words for a datagram socket. -/
inductive Stage where
  | found (seeker : Seeker) (args : Args) (own target : SocketId)
  | returning (target : SocketId)
  | seeding (args : Args) (words : List U64)

/-- The object that the hook has a pointer to besides its descriptor's. -/
def Stage.target : Stage → Option SocketId
  | .found _ _ _ target => some target
  | .returning target => some target
  | .seeding _ _ => none

structure Running where
  sim : Sim
  stages : ReplicaId → Option Stage

/-- What the hooks that have not returned point to. -/
def pointed (stages : ReplicaId → Option Stage) : Set SocketId :=
  {s | ∃ r stage, stages r = some stage ∧ stage.target = some s}

/-- A shared pointer to the object exists. -/
def Running.Owned (t : Running) (s : SocketId) : Prop :=
  (∃ h : Handle, (t.sim.fdTables h.1).live h.2 = some s) ∨ s ∈ pointed t.stages

/-- The replica is inside the constructor of a datagram socket or between it and the end of
the hook. -/
def Running.Constructs (t : Running) (r : ReplicaId) : Prop :=
  ∃ args words, t.stages r = some (.seeding args words)

/-- The replica has draws from the simulator's generator before it. -/
def Running.Draws (t : Running) (r : ReplicaId) : Prop :=
  ∃ args words, t.stages r = some (.seeding args words) ∧ words.length < 4

/-- The state `mid`, but for the objects that are still pointed to. -/
structure Spared (kept : Set SocketId) (mid after : Sim) : Prop where
  same : after = { mid with net := ⟨mid.net.map, after.net.destroyed⟩ }
  destroyed : ∀ s, s ∈ after.net.destroyed ↔ s ∈ mid.net.destroyed ∧ s ∉ kept

inductive RunEvent where
  | finds (r : ReplicaId) (seeker : Seeker) (args : Args)
  | seeds (r : ReplicaId) (args : Args)
  | draws (r : ReplicaId)
  | commits (e : SysEvent)
  | returns (r : ReplicaId)

/-- A hook runs without a break, or stops when it has found an object and after it used
it, or before each draw for a datagram socket and after the last. The program of a replica
runs only outside of hooks. -/
inductive RunStep (t : Running) : RunEvent → Running → Prop where
  | whole {e : SysEvent} {mid after : Sim} (free : t.stages (caller e) = none)
      (silent : ¬Seeds e) (taken : SysStep t.sim e mid)
      (spared : Spared (pointed t.stages) mid after) :
      RunStep t (.commits e) ⟨after, t.stages⟩
  | finds {r : ReplicaId} {seeker : Seeker} {args : Args} {stack : Stack}
      {own target : SocketId} {after : Sim} (free : t.stages r = none)
      (asked : ask seeker stack t.sim r args = some (own, target, after)) :
      RunStep t (.finds r seeker args)
        ⟨after, update t.stages r (some (.found seeker args own target))⟩
  | uses {r : ReplicaId} {seeker : Seeker} {args : Args} {own target : SocketId}
      {around : Surroundings} {result : HookResult} {after : Sim}
      (found : t.stages r = some (.found seeker args own target))
      (ran : finish around t.sim r args own target seeker = some (result, after)) :
      RunStep t (.commits (.call r seeker.call args result))
        ⟨after, update t.stages r (some (.returning target))⟩
  | shares {r : ReplicaId} {target : SocketId} (used : t.stages r = some (.returning target))
      (owned : Running.Owned ⟨t.sim, update t.stages r none⟩ target) :
      RunStep t (.returns r) ⟨t.sim, update t.stages r none⟩
  | drops {r : ReplicaId} {target : SocketId} (used : t.stages r = some (.returning target))
      (last : ¬Running.Owned ⟨t.sim, update t.stages r none⟩ target) :
      RunStep t (.returns r) ⟨t.sim.release target, update t.stages r none⟩
  | seeds {r : ReplicaId} {args : Args} (free : t.stages r = none) (asks : AsksDatagram args) :
      RunStep t (.seeds r args) ⟨t.sim, update t.stages r (some (.seeding args []))⟩
  -- the word and the state left behind are those of a draw only if no other thread draws
  | draws {r : ReplicaId} {args : Args} {words : List U64} {word : U64} {rng : Xoshiro}
      (begun : t.stages r = some (.seeding args words)) (more : words.length < 4)
      (drawn : (∀ q, t.Draws q → q = r) → t.sim.rng.next = (word, rng)) :
      RunStep t (.draws r)
        ⟨withRng t.sim rng, update t.stages r (some (.seeding args (words ++ [word])))⟩
  | makes {r : ReplicaId} {args : Args} {words : List U64} {seed : Xoshiro}
      {result : HookResult} {mid after : Sim}
      (begun : t.stages r = some (.seeding args words)) (four : seedOf words = some seed)
      (ran : finishSocket t.sim r args seed = (result, mid))
      (spared : Spared (pointed t.stages) mid after) :
      RunStep t (.commits (.call r .socket args result)) ⟨after, update t.stages r none⟩

def start (seed : U64) (netFaults : FaultSampling.FaultOptions)
    (memories : ReplicaId → ChildMemory.Memory) : Running :=
  ⟨Sim.start seed netFaults memories, fun _ => none⟩

/-! ## A hook that stopped -/

/-- If the hook asked now, it would be told the same. -/
structure Asked (sim : Sim) (r : ReplicaId) (seeker : Seeker) (args : Args)
    (own target : SocketId) : Prop where
  simulated : isSimulated ((args.get 0).setWidth 32) = true
  opened : (sim.fdTables r).live ((args.get 0).setWidth 32) = some own
  casts : seeker.casts (sim.objects own) = true
  leads : ∃ stack addr, parseAddr (sim.readMemory r) stack (seeker.address args).1
    (seeker.address args).2.toNat = .ok addr ∧ sim.net.resolve addr = some target

theorem lookup_live {sim : Sim} {r : ReplicaId} {fd : CInt} {s : SocketId}
    (opened : (sim.fdTables r).live fd = some s) : sim.lookup r fd = (some s, sim) := by
  have same : ((sim.fdTables r).get fd).2 = sim.fdTables r :=
    get_of_live fun closed => nomatch closed.symm.trans opened
  refine Prod.ext ((lookup_fst sim r fd).trans opened) ?_
  simp only [Sim.lookup, same, update_eq_self]

theorem get_resolved {n : Net} {a : Addr} {s : SocketId} (owned : n.resolve a = some s) :
    n.get a = (some s, n) := by
  have present : a ∈ n.map := by
    by_contra absent
    rw [Net.resolve, Finmap.lookup_eq_none.mpr absent] at owned
    cases owned
  have touched : n.touch a = n := if_pos present
  simp only [Net.get, touched, owned]

/-- A hook that stops has changed nothing. -/
theorem ask_spec {seeker : Seeker} {stack : Stack} {sim after : Sim} {r : ReplicaId}
    {args : Args} {own target : SocketId}
    (asked : ask seeker stack sim r args = some (own, target, after)) :
    after = sim ∧ Asked sim r seeker args own target := by
  by_cases real : isSimulated ((args.get 0).setWidth 32) = false
  · simp only [ask, if_pos real] at asked
    cases asked
  · cases parsed : parseAddr (sim.readMemory r) stack (seeker.address args).1
      (seeker.address args).2.toNat with
    | error e =>
      simp only [ask, if_neg real, parsed] at asked
      cases asked
    | ok addr =>
      simp only [ask, if_neg real, parsed] at asked
      cases opened : (sim.fdTables r).live ((args.get 0).setWidth 32) with
      | none =>
        have found := (lookup_fst sim r ((args.get 0).setWidth 32)).trans opened
        rw [found] at asked
        cases asked
      | some s =>
        rw [lookup_live opened] at asked
        dsimp only at asked
        by_cases casts : seeker.casts (sim.objects s) = false
        · rw [if_pos casts] at asked
          cases asked
        · rw [if_neg casts] at asked
          cases owned : sim.net.resolve addr with
          | none =>
            rw [(sim.net.get_spec addr).1.trans owned] at asked
            cases asked
          | some p =>
            rw [get_resolved owned] at asked
            obtain ⟨rfl, ends⟩ := Prod.mk.inj (Option.some.inj asked)
            obtain ⟨rfl, rfl⟩ := Prod.mk.inj ends
            exact ⟨rfl, by simpa using real, opened, by simpa using casts, stack, addr, parsed,
              owned⟩

theorem sendto_asked {sim : Sim} {r : ReplicaId} {args : Args} {own target : SocketId}
    (asked : Asked sim r .sendto args own target) (around : Surroundings) :
    ∃ stack, sysSendto { around with stack } sim r args =
      finishSendto around sim r args target := by
  obtain ⟨simulated, opened, casts, stack, addr, parsed, owned⟩ := asked
  refine ⟨stack, ?_⟩
  obtain ⟨sock, kind⟩ := Option.isSome_iff_exists.mp casts
  have real : ¬isSimulated ((args.get 0).setWidth 32) = false := by
    rw [simulated]
    decide
  have good : ¬(ChildMemory.readMemory (sim.memories r) (args.get 1)
      (List.replicate (args.get 2).toNat 0)).1.toInt < 0 := by
    rw [ChildMemory.readMemory_zero]
    decide
  simp only [Seeker.address] at parsed
  simp only [sysSendto, if_neg real, parsed, lookup_live opened, kind]
  cases target' : (sim.objects target).asDatagram with
  | none =>
    simp only [sendTo, FaultSchedule.World.sendTo, Sim.world, get_resolved owned, target',
      Option.map_none, finishSendto]
    rfl
  | some far =>
    cases sent : far.inbound.send around.host around.fuel around.now
        (ChildMemory.readMemory (sim.memories r) (args.get 1)
          (List.replicate (args.get 2).toNat 0)).2 default <;>
      simp only [sendTo, FaultSchedule.World.sendTo, Sim.world, get_resolved owned, target',
        Option.map_some, if_neg good, finishSendto, sent]

theorem connect_asked {sim : Sim} {r : ReplicaId} {args : Args} {own target : SocketId}
    (asked : Asked sim r .connect args own target) (around : Surroundings) :
    ∃ stack, sysConnect { around with stack } sim r args = finishConnect sim own target := by
  obtain ⟨simulated, opened, casts, stack, addr, parsed, owned⟩ := asked
  refine ⟨stack, ?_⟩
  have real : ¬isSimulated ((args.get 0).setWidth 32) = false := by
    rw [simulated]
    decide
  have socket : ¬(sim.objects own).isSocket = false := by
    rw [show (sim.objects own).isSocket = true from casts]
    decide
  simp only [Seeker.address] at parsed
  simp only [sysConnect, if_neg real, parsed, lookup_live opened, if_neg socket,
    get_resolved owned]
  rfl

/-- A hook that goes on does what the whole hook would do now. -/
theorem finish_step {sim after : Sim} {r : ReplicaId} {seeker : Seeker} {args : Args}
    {own target : SocketId} {around : Surroundings} {result : HookResult}
    (asked : Asked sim r seeker args own target)
    (ran : finish around sim r args own target seeker = some (result, after)) :
    SysStep sim (.call r seeker.call args result) after := by
  cases seeker with
  | sendto =>
    obtain ⟨stack, same⟩ := sendto_asked asked around
    exact ⟨{ around with stack }, same.trans ran⟩
  | connect =>
    obtain ⟨stack, same⟩ := connect_asked asked around
    exact ⟨{ around with stack }, (congrArg some same).trans ran⟩

/-! ## What other replicas leave alone -/

variable {admits : FaultSampling.Host → Prop}

/-- A step leaves the memories of all other replicas. -/
theorem memories_step {sim after : Sim} {e : SysEvent} (effect : Effect admits sim e after)
    {r : ReplicaId} (other : r ≠ caller e) : after.memories r = sim.memories r := by
  have looked : ∀ {found : Sim}, Looked sim e found → after.memories = found.memories →
      after.memories r = sim.memories r := by
    intro found looked same
    rw [same, looked.looked.memories]
  cases effect with
  | idle same => rw [same]
  | looked found => exact looked found rfl
  | closed opened same =>
    rw [same]
    rfl
  | unopened new same =>
    rw [same]
    rfl
  | made new inserted nonneg same =>
    rw [same]
    rfl
  | bound event opened socket parsed free found same => exact looked found (by rw [same])
  | connected event parsed ends quiet family found same =>
    exact looked found (by rw [same]; rfl)
  | sent admitted event opened datagram parsed owner target drawn found same =>
    exact looked found (by rw [same]; rfl)
  | received event opened datagram top ready found same =>
    rw [same]
    exact update_of_ne other _ _
  | computed same =>
    rw [same]
    exact update_of_ne other _ _

theorem Seeker.casts_reshaped (seeker : Seeker) {d d' : Descriptor} (reshapes : Reshapes d d')
    (casts : seeker.casts d = true) : seeker.casts d' = true := by
  cases reshapes with
  | connect sock p =>
    cases seeker with
    | sendto => cases casts
    | connect => rfl
  | queue sock pipe => cases seeker <;> rfl

/-- An object stays of its class. -/
theorem casts_step {sim after : Sim} {e : SysEvent} (effect : Effect admits sim e after)
    {seeker : Seeker} {s : SocketId} (made : s < sim.nextObject)
    (casts : seeker.casts (sim.objects s) = true) : seeker.casts (after.objects s) = true := by
  rcases objects_step effect with ⟨-, same | ⟨t, d, reshapes, same⟩⟩ | ⟨-, d, rng, -, same⟩
  · rwa [same]
  · rw [same]
    by_cases here : s = t
    · rw [here] at casts
      rw [here, update_self]
      exact seeker.casts_reshaped reshapes casts
    · rwa [update_of_ne here]
  · rwa [same, update_of_ne (Nat.ne_of_lt made)]

theorem resolve_iff {n : Net} {a : Addr} {s : SocketId} :
    n.resolve a = some s ↔ (n.map.lookup a).join = some s ∧ s ∉ n.destroyed := by
  rw [Net.resolve, Net.lock, Option.filter_eq_some_iff, decide_eq_true_iff]

/-- An address that leads to an object keeps naming it, even when it goes away. -/
theorem names_step {sim after : Sim} {e : SysEvent} (effect : Effect admits sim e after)
    {a : Addr} {s : SocketId} (owned : sim.net.resolve a = some s) :
    (after.net.map.lookup a).join = some s := by
  have netEffect := net_effect effect
  by_cases there : s ∈ after.net.destroyed
  · have before : s ∉ sim.net.destroyed := (resolve_iff.mp owned).2
    cases netEffect with
    | asked owners destroyed => exact absurd (destroyed ▸ there) before
    | destroyed same =>
      rw [same]
      exact (resolve_iff.mp owned).1
    | bound target owners destroyed => exact absurd (destroyed ▸ there) before
  · exact (resolve_iff.mp (netEffect.keeps owned there)).1

/-! ## Objects that outlive their descriptors -/

section Spared
variable {kept : Set SocketId} {mid after : Sim}

theorem spared_refl (there : ∀ s ∈ kept, s ∉ mid.net.destroyed) : Spared kept mid mid where
  same := rfl
  destroyed := fun s => ⟨fun gone => ⟨gone, fun held => there s held gone⟩, And.left⟩

theorem Spared.fdTables (spared : Spared kept mid after) : after.fdTables = mid.fdTables := by
  rw [spared.same]

theorem Spared.nextObject (spared : Spared kept mid after) :
    after.nextObject = mid.nextObject := by
  rw [spared.same]

theorem Spared.objects (spared : Spared kept mid after) : after.objects = mid.objects := by
  rw [spared.same]

theorem Spared.memories (spared : Spared kept mid after) : after.memories = mid.memories := by
  rw [spared.same]

theorem Spared.resolve_iff (spared : Spared kept mid after) {a : Addr} {s : SocketId} :
    after.net.resolve a = some s ↔
      (mid.net.map.lookup a).join = some s ∧ s ∉ after.net.destroyed := by
  have map : after.net.map = mid.net.map := by rw [spared.same]
  rw [RunningHooks.resolve_iff, map]

theorem Spared.wellFormed (spared : Spared kept mid after) (wf : WellFormed mid)
    (gone : ∀ s ∈ mid.net.destroyed, s < mid.nextObject) : WellFormed after := by
  refine ⟨?_, ?_, ?_⟩
  · rw [spared.fdTables]
    exact wf.numbers
  · rw [spared.fdTables, spared.nextObject]
    exact wf.opened
  · rw [spared.nextObject]
    intro a s owned
    have names := (spared.resolve_iff.mp owned).1
    by_cases old : s ∈ mid.net.destroyed
    · exact gone s old
    · exact wf.bound a s (RunningHooks.resolve_iff.mpr ⟨names, old⟩)

theorem Spared.slots (spared : Spared kept mid after) (made : ∀ s ∈ kept, s < mid.nextObject) :
    slots after = ⟨(slots mid).holds, (slots mid).live ∪ kept⟩ := by
  refine slots_eq (by simp only [SocketLifetimes.slots, spared.fdTables]) fun s => ?_
  rw [spared.nextObject, spared.destroyed, not_and_or, not_not, and_or_left]
  refine or_congr_right ⟨And.right, fun held => ⟨made s held, held⟩⟩

end Spared

/-- What a step keeps of a state and of the objects on loan. -/
structure Lawful (loans : Set SocketId) (sim : Sim) : Prop where
  wellFormed : WellFormed sim
  gone : ∀ s ∈ sim.net.destroyed, s < sim.nextObject
  shared : Shared loans (slots sim)

theorem Lawful.there {loans : Set SocketId} {sim : Sim} (lawful : Lawful loans sim)
    {s : SocketId} (lent : s ∈ loans) : s < sim.nextObject ∧ s ∉ sim.net.destroyed := by
  have live : s ∈ (slots sim).live := by
    rw [lawful.shared.2]
    exact Or.inr lent
  exact live

theorem Lawful.effect {loans : Set SocketId} {sim mid : Sim} {e : SysEvent}
    (lawful : Lawful loans sim) (taken : SysStep sim e mid) :
    Effect (fun _ => True) sim e mid :=
  effect_of_step lawful.wellFormed (sysStep_iff.mp taken)

theorem Lawful.step {loans : Set SocketId} {sim mid after : Sim} {e : SysEvent}
    (lawful : Lawful loans sim) (taken : SysStep sim e mid) (spared : Spared loans mid after) :
    Lawful loans after := by
  have effect := lawful.effect taken
  have gone := gone_step lawful.wellFormed lawful.gone effect
  have next : sim.nextObject ≤ mid.nextObject := by
    rcases objects_step effect with ⟨same, -⟩ | ⟨more, -⟩
    · exact Nat.le_of_eq same.symm
    · exact more ▸ Nat.le_succ _
  refine ⟨spared.wellFormed (wellFormed_step taken lawful.wellFormed) gone, ?_, ?_⟩
  · intro s old
    rw [spared.nextObject]
    exact gone s ((spared.destroyed s).mp old).1
  · rw [spared.slots fun s lent => (lawful.there lent).1.trans_le next]
    exact shared_step lawful.shared (fun _ new old => Nat.not_lt.mpr new old.1)
      (slots_step lawful.wellFormed lawful.gone effect)

/-- The generator and the objects have no part in it. -/
theorem Lawful.reseeded {loans : Set SocketId} {n : SocketId} {mid after : Sim}
    (lawful : Lawful loans mid) (reseeded : Reseeded n mid after) : Lawful loans after := by
  rw [reseeded.same]
  exact ⟨⟨lawful.wellFormed.numbers, lawful.wellFormed.opened, lawful.wellFormed.bound⟩,
    lawful.gone, lawful.shared⟩

/-- A new object is not one that a hook has found. -/
theorem Asked.reseeded {n : SocketId} {mid after : Sim} {r : ReplicaId} {seeker : Seeker}
    {args : Args} {own target : SocketId} (asked : Asked mid r seeker args own target)
    (reseeded : Reseeded n mid after) (other : own ≠ n) :
    Asked after r seeker args own target := by
  have casts := asked.casts
  rw [← reseeded.others own other] at casts
  obtain ⟨simulated, opened, -, leads⟩ := asked
  rw [reseeded.same] at casts ⊢
  exact ⟨simulated, opened, casts, leads⟩

/-- While an object is on loan, the hook that found it would find it again. -/
theorem Asked.step {loans : Set SocketId} {sim mid after : Sim} {e : SysEvent} {r : ReplicaId}
    {seeker : Seeker} {args : Args} {own target : SocketId}
    (asked : Asked sim r seeker args own target) (lawful : Lawful loans sim)
    (taken : SysStep sim e mid) (spared : Spared loans mid after) (other : r ≠ caller e)
    (lent : target ∈ loans) : Asked after r seeker args own target := by
  have effect := lawful.effect taken
  have memories : after.readMemory r = sim.readMemory r := by
    funext ptr data
    simp only [Sim.readMemory, spared.memories, memories_step effect other]
  obtain ⟨stack, addr, parsed, owned⟩ := asked.leads
  refine ⟨asked.simulated, ?_, ?_, stack, addr, memories ▸ parsed, ?_⟩
  · rw [spared.fdTables, tables_step effect other]
    exact asked.opened
  · rw [spared.objects]
    exact casts_step effect (lawful.wellFormed.opened _ _ _ asked.opened) asked.casts
  · exact spared.resolve_iff.mpr ⟨names_step effect owned,
      fun gone => ((spared.destroyed target).mp gone).2 lent⟩

/-! ## Every run -/

theorem pointed_update (stages : ReplicaId → Option Stage) (r : ReplicaId) (stage : Stage) :
    pointed (update stages r (some stage)) =
      {s | stage.target = some s} ∪ pointed (update stages r none) := by
  ext s
  constructor
  · rintro ⟨q, other, here, there⟩
    by_cases same : q = r
    · rw [same, update_self] at here
      obtain rfl := Option.some.inj here
      exact Or.inl there
    · rw [update_of_ne same] at here
      exact Or.inr ⟨q, other, (update_of_ne same _ _).trans here, there⟩
  · rintro (own | ⟨q, other, here, there⟩)
    · exact ⟨r, stage, update_self r _ _, own⟩
    · by_cases same : q = r
      · rw [same, update_self] at here
        cases here
      · rw [update_of_ne same] at here
        exact ⟨q, other, (update_of_ne same _ _).trans here, there⟩

theorem pointed_set (stages : ReplicaId → Option Stage) (r : ReplicaId) {stage : Stage}
    {target : SocketId} (points : stage.target = some target) :
    pointed (update stages r (some stage)) = insert target (pointed (update stages r none)) := by
  rw [pointed_update, points, Set.insert_eq]
  congr 1
  ext s
  exact Option.some_inj.trans eq_comm

theorem pointed_at {stages : ReplicaId → Option Stage} {r : ReplicaId} {stage : Stage}
    {target : SocketId} (here : stages r = some stage) (points : stage.target = some target) :
    pointed stages = insert target (pointed (update stages r none)) := by
  rw [← pointed_set stages r points, ← here, update_eq_self]

/-- A stage that points to nothing makes no difference. -/
theorem pointed_seeding (stages : ReplicaId → Option Stage) (r : ReplicaId) {stage : Stage}
    (points : stage.target = none) :
    pointed (update stages r (some stage)) = pointed (update stages r none) := by
  have nothing : {s | stage.target = some s} = ∅ := by
    refine Set.eq_empty_of_forall_notMem fun s own => ?_
    cases points.symm.trans own
  rw [pointed_update, nothing, Set.empty_union]

theorem pointed_begun {stages : ReplicaId → Option Stage} {r : ReplicaId} {stage : Stage}
    (here : stages r = some stage) (points : stage.target = none) :
    pointed (update stages r none) = pointed stages := by
  rw [← pointed_seeding stages r points, ← here, update_eq_self]

theorem pointed_free {stages : ReplicaId → Option Stage} {r : ReplicaId}
    (free : stages r = none) : pointed (update stages r none) = pointed stages := by
  rw [← free, update_eq_self]

theorem pointed_start : pointed (fun _ => none) = ∅ :=
  Set.eq_empty_of_forall_notMem fun _ ⟨_, _, here, _⟩ => nomatch here

theorem owned_iff {t : Running} {s : SocketId} :
    t.Owned s ↔ s ∈ (slots t.sim).held ∪ pointed t.stages := Iff.rfl

/-- What every state keeps while hooks run. -/
structure Sound (t : Running) : Prop where
  lawful : Lawful (pointed t.stages) t.sim
  asked : ∀ {r seeker args own target}, t.stages r = some (.found seeker args own target) →
    Asked t.sim r seeker args own target
  asks : ∀ {r args words}, t.stages r = some (.seeding args words) → AsksDatagram args

/-- The second part of a hook leaves the network alone. -/
theorem finish_net {around : Surroundings} {sim after : Sim} {r : ReplicaId} {args : Args}
    {own target : SocketId} {seeker : Seeker} {result : HookResult}
    (ran : finish around sim r args own target seeker = some (result, after)) :
    after.net = sim.net := by
  cases seeker with
  | sendto =>
    simp only [finish, finishSendto] at ran
    split at ran
    · rw [← (Prod.mk.inj (Option.some.inj ran)).2]
    · split at ran
      · cases ran
      · split at ran
        · rw [← (Prod.mk.inj (Option.some.inj ran)).2]
        · split at ran
          · cases ran
          · rw [← (Prod.mk.inj (Option.some.inj ran)).2]
            rfl
  | connect =>
    simp only [finish, finishConnect] at ran
    split at ran
    · rw [← (Prod.mk.inj (Option.some.inj ran)).2]
    · split at ran
      · rw [← (Prod.mk.inj (Option.some.inj ran)).2]
      · split at ran
        · rw [← (Prod.mk.inj (Option.some.inj ran)).2]
        · rw [← (Prod.mk.inj (Option.some.inj ran)).2]
          rfl

/-- What is spared may be spared before the seed is put in. -/
theorem Spared.before {kept : Set SocketId} {n : SocketId} {mid made after : Sim}
    (reseeded : Reseeded n mid made) (spared : Spared kept made after) :
    ∃ spare, Spared kept mid spare ∧ Reseeded n spare after := by
  have net : made.net = mid.net := by rw [reseeded.same]
  have objects : after.objects = made.objects := by rw [spared.same]
  have same := spared.same
  rw [reseeded.same] at same
  refine ⟨{ mid with net := ⟨mid.net.map, after.net.destroyed⟩ }, ⟨rfl, net ▸ spared.destroyed⟩,
    ?_, objects ▸ reseeded.others, objects ▸ reseeded.fresh⟩
  rw [same]

section Steps
variable {t t' : Running} {e : RunEvent}

/-- A hook goes on: that is a step of the whole hook, and nothing goes away in it. -/
theorem Sound.finishes {r : ReplicaId} {seeker : Seeker} {args : Args}
    {own target : SocketId} {around : Surroundings} {result : HookResult} {after : Sim}
    (sound : Sound t) (found : t.stages r = some (.found seeker args own target))
    (ran : finish around t.sim r args own target seeker = some (result, after)) :
    SysStep t.sim (.call r seeker.call args result) after ∧
      Spared (pointed t.stages) after after := by
  refine ⟨finish_step (sound.asked found) ran, spared_refl fun s lent => ?_⟩
  rw [finish_net ran]
  exact (sound.lawful.there lent).2

/-- What a step does to the simulation: a hook takes effect, but for what is spared and for
the seed of a new socket; or at most the generator moves; or an object that was spared goes. -/
inductive Moves (t : Running) (e : RunEvent) (after : Sim) : Prop where
  | commits {c : SysEvent} {mid spare : Sim} (event : e = .commits c)
      (taken : SysStep t.sim c mid) (spared : Spared (pointed t.stages) mid spare)
      (reseeded : Reseeded t.sim.nextObject spare after)
  | rests {rng : Xoshiro} (same : after = withRng t.sim rng)
  | drops {s : SocketId} (same : after = t.sim.release s)

theorem Sound.moves (sound : Sound t) (step : RunStep t e t') : Moves t e t'.sim := by
  cases step with
  | whole free silent taken spared => exact .commits rfl taken spared (reseeded_refl _ _)
  | finds free asked => exact .rests (ask_spec asked).1
  | uses found ran =>
    obtain ⟨taken, spared⟩ := sound.finishes found ran
    exact .commits rfl taken spared (reseeded_refl _ _)
  | shares used owned => exact .rests (withRng_self t.sim).symm
  | drops used last => exact .drops rfl
  | seeds free asks => exact .rests (withRng_self t.sim).symm
  | draws begun more drawn => exact .rests rfl
  | @makes r args words seed result mid after begun four ran spared =>
    obtain ⟨whole, taken, reseeded⟩ := finishSocket_reseeded (sound.asks begun) t.sim r seed
    rw [ran] at taken reseeded
    obtain ⟨spare, before, seeded⟩ := spared.before reseeded
    exact .commits rfl taken before seeded

theorem sound_start (seed : U64) (netFaults : FaultSampling.FaultOptions)
    (memories : ReplicaId → ChildMemory.Memory) : Sound (start seed netFaults memories) := by
  have accounted := accounted_start seed netFaults memories
  refine ⟨⟨accounted.wellFormed, accounted.gone, ?_⟩, nofun, nofun⟩
  refine shared_of_exact accounted.exact ?_
  rw [show pointed (start seed netFaults memories).stages = ∅ from pointed_start]
  exact Set.empty_subset _

/-- The stages of the others are as they were. -/
theorem stage_before {stages : ReplicaId → Option Stage} {r q : ReplicaId} {now : Option Stage}
    {stage : Stage} (here : update stages r now q = some stage) :
    q = r ∧ now = some stage ∨ q ≠ r ∧ stages q = some stage := by
  by_cases same : q = r
  · rw [same, update_self] at here
    exact Or.inl ⟨same, here⟩
  · rw [update_of_ne same] at here
    exact Or.inr ⟨same, here⟩

/-- One replica comes to a new stage. -/
theorem Sound.updated {sim' : Sim} {r : ReplicaId} {now : Option Stage} (sound : Sound t)
    (lawful : Lawful (pointed (update t.stages r now)) sim')
    (kept : ∀ {q seeker args own target}, q ≠ r →
      t.stages q = some (.found seeker args own target) → Asked sim' q seeker args own target)
    (found : ∀ {seeker args own target}, now = some (.found seeker args own target) →
      Asked sim' r seeker args own target)
    (begun : ∀ {args words}, now = some (.seeding args words) → AsksDatagram args) :
    Sound ⟨sim', update t.stages r now⟩ := by
  refine ⟨lawful, fun here => ?_, fun here => ?_⟩
  · rcases stage_before here with ⟨rfl, same⟩ | ⟨other, was⟩
    · exact found same
    · exact kept other was
  · rcases stage_before here with ⟨-, same⟩ | ⟨-, was⟩
    · exact begun same
    · exact sound.asks was

/-- A step of one replica that takes effect keeps what the hooks of the others know. -/
theorem Sound.commits {c : SysEvent} {mid spare after : Sim} {now : Option Stage}
    (sound : Sound t) (taken : SysStep t.sim c mid)
    (spared : Spared (pointed t.stages) mid spare)
    (reseeded : Reseeded t.sim.nextObject spare after)
    (points : pointed (update t.stages (caller c) now) = pointed t.stages)
    (found : ∀ seeker args own target, now ≠ some (.found seeker args own target))
    (begun : ∀ args words, now ≠ some (.seeding args words)) :
    Sound ⟨after, update t.stages (caller c) now⟩ := by
  have lawful := (sound.lawful.step taken spared).reseeded reseeded
  refine sound.updated (points ▸ lawful) (fun other was => ?_)
    (fun same => absurd same (found _ _ _ _)) (fun same => absurd same (begun _ _))
  have asked := sound.asked was
  have old := sound.lawful.wellFormed.opened _ _ _ asked.opened
  exact (asked.step sound.lawful taken spared other ⟨_, _, was, rfl⟩).reseeded reseeded
    (Nat.ne_of_lt old)

/-- The last pointer to an object goes, and the object with it. -/
theorem lawful_drop {r : ReplicaId} {target : SocketId} (sound : Sound t)
    (used : t.stages r = some (.returning target))
    (last : ¬Running.Owned ⟨t.sim, update t.stages r none⟩ target) :
    Lawful (pointed (update t.stages r none)) (t.sim.release target) := by
  have lawful := sound.lawful
  have made := (lawful.there ⟨r, _, used, rfl⟩).1
  refine ⟨lawful.wellFormed.release target, fun s old => ?_, ?_⟩
  · rcases Finset.mem_insert.mp old with rfl | older
    · exact made
    · exact lawful.gone s older
  · have view : slots (t.sim.release target) =
        ⟨(slots t.sim).holds, (slots t.sim).live \ {target}⟩ := by
      refine slots_eq rfl fun s => ?_
      change s < t.sim.nextObject ∧ s ∉ insert target t.sim.net.destroyed ↔ _
      rw [Finset.mem_insert, not_or, Set.mem_sdiff, Set.mem_singleton_iff, and_comm (a := ¬s = _),
        ← and_assoc]
      exact Iff.rfl
    rw [view]
    exact shared_drop (pointed_at used rfl ▸ lawful.shared) last

theorem sound_step (sound : Sound t) (step : RunStep t e t') : Sound t' := by
  have lawful := sound.lawful
  cases step with
  | @whole c mid after free silent taken spared =>
    have same : update t.stages (caller c) none = t.stages := by rw [← free, update_eq_self]
    have kept := sound.commits taken spared (reseeded_refl _ after) (pointed_free free) nofun nofun
    rwa [same] at kept
  | @finds r seeker args stack own target after free asked =>
    obtain ⟨rfl, again⟩ := ask_spec asked
    obtain ⟨-, addr, -, owned⟩ := again.leads
    have live : target ∈ (slots t.sim).live :=
      ⟨lawful.wellFormed.bound addr target owned, (resolve_iff.mp owned).2⟩
    refine sound.updated ⟨lawful.wellFormed, lawful.gone, ?_⟩ (fun _ was => sound.asked was)
      (fun same => ?_) nofun
    · rw [pointed_set t.stages r rfl, pointed_free free]
      exact shared_lend lawful.shared live
    · obtain ⟨rfl, rfl, rfl, rfl⟩ := Stage.found.inj (Option.some.inj same)
      exact again
  | @uses r seeker args own target around result after found ran =>
    obtain ⟨taken, spared⟩ := sound.finishes found ran
    have same : pointed (update t.stages r (some (.returning target))) = pointed t.stages :=
      (pointed_set t.stages r rfl).trans (pointed_at found rfl).symm
    exact sound.commits taken spared (reseeded_refl _ after) same nofun nofun
  | @shares r target used owned =>
    have shared := shared_return (pointed_at used rfl ▸ lawful.shared) (owned_iff.mp owned)
    exact sound.updated ⟨lawful.wellFormed, lawful.gone, shared⟩ (fun _ was => sound.asked was)
      nofun nofun
  | @drops r target used last =>
    refine sound.updated (lawful_drop sound used last) (fun other was => ?_) nofun nofun
    obtain ⟨simulated, opened, casts, stack, addr, parsed, owned⟩ := sound.asked was
    refine ⟨simulated, opened, casts, stack, addr, parsed, resolve_destroy.mpr ⟨owned, ?_⟩⟩
    rintro rfl
    exact last (Or.inr ⟨_, _, (update_of_ne other _ _).trans was, rfl⟩)
  | @seeds r args free asks =>
    have same : pointed (update t.stages r (some (.seeding args []))) = pointed t.stages :=
      (pointed_seeding t.stages r rfl).trans (pointed_free free)
    refine sound.updated (same.symm ▸ lawful) (fun _ was => sound.asked was) nofun fun begun => ?_
    obtain ⟨rfl, -⟩ := Stage.seeding.inj (Option.some.inj begun)
    exact asks
  | @draws r args words word rng begun more drawn =>
    have same : pointed (update t.stages r (some (.seeding args (words ++ [word])))) =
        pointed t.stages :=
      (pointed_seeding t.stages r rfl).trans (pointed_begun begun rfl)
    refine sound.updated (same.symm ▸ lawful.reseeded (reseeded_rng 0 t.sim rng))
      (fun _ was => ?_) nofun fun now => ?_
    · obtain ⟨simulated, opened, casts, leads⟩ := sound.asked was
      exact ⟨simulated, opened, casts, leads⟩
    · obtain ⟨rfl, -⟩ := Stage.seeding.inj (Option.some.inj now)
      exact sound.asks begun
  | @makes r args words seed result mid after begun four ran spared =>
    obtain ⟨whole, taken, reseeded⟩ := finishSocket_reseeded (sound.asks begun) t.sim r seed
    rw [ran] at taken reseeded
    obtain ⟨spare, before, seeded⟩ := spared.before reseeded
    exact sound.commits taken before seeded (pointed_begun begun rfl) nofun nofun

end Steps

theorem sound_path {t t' : Running} {past : List RunEvent} (sound : Sound t)
    (path : Path RunStep t past t') : Sound t' :=
  history_invariant (fun _ t => Sound t) sound
    (fun _ _ _ _ kept step => sound_step kept step) path

end RunningHooks
