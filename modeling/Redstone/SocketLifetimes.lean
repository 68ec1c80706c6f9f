import Redstone.HookEffects
import Redstone.SoleOwners

/-!
# The life of a socket

An object is made by `sys_socket` for one descriptor and lives until that descriptor is
closed or overwritten. The tables of all replicas together are slots in the sense of
`SoleOwners`, so no two descriptors share an object, none is left over, and an address
never leads to one that is gone. Here a hook ends before the next one begins.
-/

namespace SocketLifetimes

open MachineWords SocketAddr Network FdTable
open SocketSeeds (ReplicaId)
open TraceLoop (Args)
open Syscalls HookOutcomes HookEffects SoleOwners StepRuns Function

variable {admits : FaultSampling.Host → Prop}

/-- The numbers of all replicas. -/
abbrev Handle := ReplicaId × CInt

/-- The tables as slots. An object lives from its constructor to its destructor. -/
def slots (sim : Sim) : Slots Handle SocketId where
  holds := fun h => (sim.fdTables h.1).live h.2
  live := {s | s < sim.nextObject ∧ s ∉ sim.net.destroyed}

/-- The identities that no object had so far. -/
def unmade (sim : Sim) : Set SocketId := {s | sim.nextObject ≤ s}

/-- What every state keeps besides `WellFormed`. -/
structure Accounted (sim : Sim) : Prop where
  wellFormed : WellFormed sim
  gone : ∀ s ∈ sim.net.destroyed, s < sim.nextObject
  sockets : ∀ s < sim.nextObject, (sim.objects s).isSocket = true
  exact : Exact (slots sim)

theorem holds_update {sim after : Sim} {r : ReplicaId} {table : Table SocketId} {fd : CInt}
    {slot : Option SocketId} (tables : after.fdTables = update sim.fdTables r table)
    (here : table.live fd = slot) (there : ∀ a, a ≠ fd → table.live a = (sim.fdTables r).live a) :
    (slots after).holds = update (slots sim).holds (r, fd) slot := by
  funext ⟨q, a⟩
  simp only [slots, tables]
  by_cases same : (q, a) = (r, fd)
  · obtain ⟨rfl, rfl⟩ := Prod.mk.inj same
    rw [update_self, update_self, here]
  · rw [update_of_ne same]
    by_cases own : q = r
    · rw [own, update_self]
      refine there a ?_
      rintro rfl
      exact same (by rw [own])
    · rw [update_of_ne own]

/-- A lookup may make an entry, but no descriptor. -/
theorem holds_looked {sim after : Sim} {e : SysEvent}
    (tables : after.fdTables = (sim.lookup (caller e) (fdOf e)).2.fdTables) :
    (slots after).holds = (slots sim).holds := by
  have live := ((sim.fdTables (caller e)).get_spec (fdOf e)).2.1
  have there : ∀ a, a ≠ fdOf e →
      (((sim.fdTables (caller e)).get (fdOf e)).2.live a) = (sim.fdTables (caller e)).live a :=
    fun a _ => congrFun live a
  rw [holds_update tables (congrFun live (fdOf e)) there]
  exact update_eq_self (caller e, fdOf e) _

theorem slots_eq {after : Sim} {holds : Handle → Option SocketId} {live : Set SocketId}
    (tables : (slots after).holds = holds)
    (objects : ∀ s, (s < after.nextObject ∧ s ∉ after.net.destroyed) ↔ s ∈ live) :
    slots after = ⟨holds, live⟩ := by
  have same : (slots after).live = live := Set.ext objects
  rw [← tables, ← same]

theorem slots_same {sim after : Sim} (holds : (slots after).holds = (slots sim).holds)
    (next : after.nextObject = sim.nextObject)
    (destroyed : after.net.destroyed = sim.net.destroyed) : slots after = slots sim := by
  refine slots_eq holds fun s => ?_
  rw [next, destroyed]
  exact Iff.rfl

theorem live_put {t : Table SocketId} {fd : CInt} {s : SocketId} {table : Table SocketId}
    (inserted : t.insert (some s) = (fd, table)) (nonneg : 0 ≤ fd.toInt) :
    table.live fd = some s ∧ ∀ a, a ≠ fd → table.live a = t.live a := by
  rcases t.insert_cases (some s) with ⟨fd', rest, -, result⟩ | ⟨-, -, result⟩ | ⟨-, -, result⟩
  · obtain ⟨rfl, rfl⟩ := Prod.mk.inj (inserted.symm.trans result)
    exact ⟨Table.live_insert_self _ _ _ _, fun a other => Table.live_insert_ne other⟩
  · obtain ⟨rfl, -⟩ := Prod.mk.inj (inserted.symm.trans result)
    exact absurd nonneg refused_negative
  · obtain ⟨rfl, rfl⟩ := Prod.mk.inj (inserted.symm.trans result)
    exact ⟨Table.live_insert_self _ _ _ _, fun a other => Table.live_insert_ne other⟩

theorem live_shut {t : Table SocketId} {fd : CInt} {s : SocketId} (used : t.live fd = some s) :
    (t.close fd).2.live fd = none ∧ ∀ a, a ≠ fd → (t.close fd).2.live a = t.live a := by
  rcases close_cases t fd with ⟨unused, -⟩ | ⟨s, -, closed⟩
  · rw [unused] at used
    cases used
  · rw [closed]
    exact ⟨Table.live_erase_self _ _ _, fun a other => Table.live_erase_ne other⟩

theorem slots_closed {sim after : Sim} {e : SysEvent} {s : SocketId} (opened : Opened sim e s)
    (tables : after.fdTables =
      update sim.fdTables (caller e) ((tableOf sim e).close (fdOf e)).2)
    (next : after.nextObject = sim.nextObject)
    (destroyed : after.net.destroyed = insert s sim.net.destroyed) :
    slots after = ⟨update (slots sim).holds (caller e, fdOf e) none,
      (slots sim).without (caller e, fdOf e)⟩ := by
  obtain ⟨here, there⟩ := live_shut opened
  refine slots_eq (holds_update tables here there) fun o => ?_
  have held : (slots sim).holds (caller e, fdOf e) = some s := opened
  have parts : o ∈ (slots sim).without (caller e, fdOf e) ↔
      (o < sim.nextObject ∧ o ∉ sim.net.destroyed) ∧ some s ≠ some o := by
    rw [← held]
    exact Iff.rfl
  rw [parts, next, destroyed, Finset.mem_insert, not_or, ne_eq, Option.some.injEq, eq_comm (a := s),
    and_assoc, and_comm (a := ¬o = s)]

/-- A new object goes where an insert puts it, and what was there goes away. -/
theorem slots_made {sim after : Sim} {e : SysEvent} {fd : CInt} {table : Table SocketId}
    (opened : ∀ r fd s, (sim.fdTables r).live fd = some s → s < sim.nextObject)
    (gone : ∀ s ∈ sim.net.destroyed, s < sim.nextObject)
    (inserted : (tableOf sim e).insert (some sim.nextObject) = (fd, table))
    (nonneg : 0 ≤ fd.toInt) (tables : after.fdTables = update sim.fdTables (caller e) table)
    (next : after.nextObject = sim.nextObject + 1) (net : after.net = overwritten sim e fd) :
    slots after = ⟨update (slots sim).holds (caller e, fd) (some sim.nextObject),
      insert sim.nextObject ((slots sim).without (caller e, fd))⟩ := by
  obtain ⟨here, there⟩ := live_put inserted nonneg
  refine slots_eq (holds_update tables here there) fun o => ?_
  have fresh : sim.nextObject ∉ sim.net.destroyed := fun old =>
    Nat.lt_irrefl _ (gone _ old)
  have destroyed : o ∈ after.net.destroyed ↔
      o ∈ sim.net.destroyed ∨ (slots sim).holds (caller e, fd) = some o := by
    have held : (slots sim).holds (caller e, fd) = (tableOf sim e).live fd := rfl
    rw [net, overwritten, held]
    cases (tableOf sim e).live fd with
    | none => simp
    | some old => simp [Net.destroy, or_comm, eq_comm]
  rw [next, destroyed, Set.mem_insert_iff, Nat.lt_succ_iff_lt_or_eq]
  constructor
  · rintro ⟨older | rfl, kept⟩
    · exact Or.inr ⟨⟨older, fun old => kept (Or.inl old)⟩, fun old => kept (Or.inr old)⟩
    · exact Or.inl rfl
  · rintro (rfl | ⟨⟨older, kept⟩, other⟩)
    · refine ⟨Or.inr rfl, fun old => ?_⟩
      rcases old with old | old
      · exact fresh old
      · exact Nat.lt_irrefl _ (opened _ _ _ old)
    · exact ⟨Or.inl older, fun old => old.elim kept other⟩

/-- An object that no number was left for goes away at once. -/
theorem slots_unmade {sim after : Sim} (tables : after.fdTables = sim.fdTables)
    (next : after.nextObject = sim.nextObject + 1)
    (destroyed : after.net.destroyed = insert sim.nextObject sim.net.destroyed) :
    slots after = slots sim := by
  have holds : (slots after).holds = (slots sim).holds := by
    simp only [slots, tables]
  refine slots_eq holds fun o => ?_
  rw [next, destroyed, Nat.lt_succ_iff_lt_or_eq, Finset.mem_insert, not_or]
  constructor
  · rintro ⟨older | rfl, other, kept⟩
    · exact ⟨older, kept⟩
    · exact absurd rfl other
  · rintro ⟨older, kept⟩
    exact ⟨Or.inl older, Nat.ne_of_lt older, kept⟩

/-- What a step does to the slots. -/
theorem slots_step {sim after : Sim} {e : SysEvent} (wellFormed : WellFormed sim)
    (gone : ∀ s ∈ sim.net.destroyed, s < sim.nextObject) (effect : Effect admits sim e after) :
    SlotStep (unmade sim) (slots sim) (slots after) := by
  have stays : slots after = slots sim → SlotStep (unmade sim) (slots sim) (slots after) := by
    intro same
    rw [same]
    exact .stay
  have touched : ∀ {found : Sim}, Looked sim e found → after.fdTables = found.fdTables →
      after.nextObject = found.nextObject → after.net.destroyed = found.net.destroyed →
      SlotStep (unmade sim) (slots sim) (slots after) := by
    intro found looked tables next destroyed
    exact stays (slots_same (holds_looked (tables.trans looked.looked.tables))
      (next.trans looked.looked.next) (destroyed.trans looked.steady.destroyed))
  cases effect with
  | idle same => exact stays (congrArg slots same)
  | looked looked => exact touched looked rfl rfl rfl
  | closed opened same =>
    have view : slots after = _ :=
      slots_closed opened (by rw [same]; rfl) (by rw [same]; rfl) (by rw [same]; rfl)
    rw [view]
    exact .take _
  | unopened new same =>
    exact stays (slots_unmade (by rw [same]; rfl) (by rw [same]; rfl) (by rw [same]; rfl))
  | made new inserted nonneg same =>
    have view : slots after = _ :=
      slots_made wellFormed.opened gone inserted nonneg (by rw [same]) (by rw [same]; rfl)
        (by rw [same])
    rw [view]
    exact .put _ (Nat.le_refl sim.nextObject)
  | @bound found s a around event opened socket parsed free looked same =>
    have kept := (Net.bind_accepted s ((congrFun looked.looked.owners a).trans free)).2.2
    exact touched looked (by rw [same]) (by rw [same]) (by rw [same]; exact kept)
  | connected event parsed ends quiet family looked same =>
    exact touched looked (by rw [same]; rfl) (by rw [same]; rfl) (by rw [same]; rfl)
  | sent admitted event opened datagram parsed owner target drawn looked same =>
    exact touched looked (by rw [same]; rfl) (by rw [same]; rfl) (by rw [same]; rfl)
  | received event opened datagram top ready looked same =>
    exact touched looked (by rw [same]; rfl) (by rw [same]; rfl) (by rw [same]; rfl)
  | computed same => exact stays (by rw [same]; rfl)

theorem accounted_start (seed : U64) (netFaults : FaultSampling.FaultOptions)
    (memories : ReplicaId → ChildMemory.Memory) :
    Accounted (Sim.start seed netFaults memories) where
  wellFormed := wellFormed_start seed netFaults memories
  gone := by
    intro s old
    cases old
  sockets := by
    intro s impossible
    cases impossible
  exact := by
    refine ⟨fun o => ⟨fun live => ?_, ?_⟩, ?_⟩
    · cases live.1
    · rintro ⟨h, here⟩
      cases here
    · intro h h' o here
      cases here

/-- Objects that have gone were made before. -/
theorem gone_step {sim after : Sim} {e : SysEvent} (wellFormed : WellFormed sim)
    (gone : ∀ s ∈ sim.net.destroyed, s < sim.nextObject) (effect : Effect admits sim e after) :
    ∀ s ∈ after.net.destroyed, s < after.nextObject := by
  have opened := wellFormed.opened
  have touched : ∀ {found : Sim}, Looked sim e found →
      after.net.destroyed = found.net.destroyed → after.nextObject = found.nextObject →
      ∀ s ∈ after.net.destroyed, s < after.nextObject := by
    intro found looked destroyed next
    rw [destroyed, next, looked.steady.destroyed, looked.looked.next]
    exact gone
  cases effect with
  | idle same =>
    rw [same]
    exact gone
  | looked looked => exact touched looked rfl rfl
  | @closed s holds same =>
    rw [same]
    intro t old
    rcases Finset.mem_insert.mp old with rfl | older
    · exact opened _ _ _ holds
    · exact gone t older
  | unopened new same =>
    rw [same]
    intro t old
    rcases Finset.mem_insert.mp old with rfl | older
    · exact Nat.lt_succ_self _
    · exact Nat.lt_succ_of_lt (gone t older)
  | @made d rng fd table new inserted nonneg same =>
    rw [same]
    intro t old
    refine Nat.lt_succ_of_lt ?_
    simp only [overwritten] at old
    cases slot : (tableOf sim e).live fd with
    | none =>
      rw [slot] at old
      exact gone t old
    | some s =>
      rw [slot] at old
      rcases Finset.mem_insert.mp old with rfl | older
      · exact opened _ _ _ slot
      · exact gone t older
  | @bound found s a around event holds socket parsed free looked same =>
    have kept := (Net.bind_accepted s ((congrFun looked.looked.owners a).trans free)).2.2
    exact touched looked (by rw [same]; exact kept) (by rw [same])
  | connected event parsed ends quiet family looked same =>
    exact touched looked (by rw [same]; rfl) (by rw [same]; rfl)
  | sent admitted event holds datagram parsed owner target drawn looked same =>
    exact touched looked (by rw [same]; rfl) (by rw [same]; rfl)
  | received event holds datagram top ready looked same =>
    exact touched looked (by rw [same]; rfl) (by rw [same]; rfl)
  | computed same =>
    rw [same]
    exact gone

theorem sockets_step {sim after : Sim} {e : SysEvent}
    (sockets : ∀ s < sim.nextObject, (sim.objects s).isSocket = true)
    (effect : Effect admits sim e after) :
    ∀ s < after.nextObject, (after.objects s).isSocket = true := by
  rcases objects_step effect with ⟨next, same | ⟨t, d, reshapes, same⟩⟩ | ⟨next, d, rng, new, same⟩
  · rw [next, same]
    exact sockets
  · rw [next, same]
    intro s old
    by_cases here : s = t
    · rw [here, update_self]
      exact reshapes.isSocket
    · rw [update_of_ne here]
      exact sockets s old
  · rw [next, same]
    intro s old
    by_cases here : s = sim.nextObject
    · rw [here, update_self]
      exact new.isSocket
    · rw [update_of_ne here]
      exact sockets s (Nat.lt_of_le_of_ne (Nat.le_of_lt_succ old) here)

theorem accounted_step {sim after : Sim} {e : SysEvent} (accounted : Accounted sim)
    (taken : SysStep sim e after) : Accounted after :=
  have effect := effect_of_step accounted.wellFormed (sysStep_iff.mp taken)
  { wellFormed := wellFormed_step taken accounted.wellFormed
    gone := gone_step accounted.wellFormed accounted.gone effect
    sockets := sockets_step accounted.sockets effect
    exact := exact_step accounted.exact (fun _ new old => Nat.not_lt.mpr new old.1)
      (slots_step accounted.wellFormed accounted.gone effect) }

theorem accounted_path {sim after : Sim} {past : List SysEvent} (accounted : Accounted sim)
    (path : Path SysStep sim past after) : Accounted after :=
  history_invariant (fun _ s => Accounted s) accounted
    (fun _ _ _ _ kept taken => accounted_step kept taken) path

/-- In every state that hooks reach one at a time, the objects that were made and still exist
are those that a number leads to, each has one number of one replica, and what an address
resolves to is one of them. -/
theorem sockets_accounted {seed : U64} {netFaults : FaultSampling.FaultOptions}
    {memories : ReplicaId → ChildMemory.Memory} {past : List SysEvent} {sim : Sim}
    (path : Path SysStep (Sim.start seed netFaults memories) past sim) :
    (∀ s, s < sim.nextObject ∧ s ∉ sim.net.destroyed ↔
      ∃! h : Handle, (sim.fdTables h.1).live h.2 = some s) ∧
    ∀ a s, sim.net.resolve a = some s → (sim.objects s).isSocket = true ∧
      ∃! h : Handle, (sim.fdTables h.1).live h.2 = some s := by
  have accounted := accounted_path (accounted_start seed netFaults memories) path
  have exact := (exact_iff (slots sim)).mp accounted.exact
  have sole : ∀ s, s < sim.nextObject ∧ s ∉ sim.net.destroyed ↔
      ∃! h : Handle, (sim.fdTables h.1).live h.2 = some s := by
    intro s
    exact ⟨(exact s).2, fun held => (exact s).1.mpr held.exists⟩
  refine ⟨sole, fun a s owned => ?_⟩
  have made := accounted.wellFormed.bound a s owned
  rw [Net.resolve, Net.lock, Option.filter_eq_some_iff] at owned
  exact ⟨accounted.sockets s made, (sole s).mp ⟨made, of_decide_eq_true owned.2⟩⟩

def opensDatagram : Args := #v[2, 2, 0, 0, 0, 0]

/-- A replica with one datagram socket. -/
def oneSocket : Sim :=
  (sysSocket (Sim.start 7 FaultSampling.defaultFaults fun _ _ => none) 3 opensDatagram).2

theorem oneSocket_reached :
    Path SysStep (Sim.start 7 FaultSampling.defaultFaults fun _ _ => none)
      [.call 3 .socket opensDatagram (.handled 0x40000000)] oneSocket := by
  let around : Surroundings := ⟨⟨fun _ rng => (false, rng), fun _ => 0⟩, 0, 0, fun _ => 0⟩
  have made : (sysSocket (Sim.start 7 FaultSampling.defaultFaults fun _ _ => none) 3
      opensDatagram).1 = .handled 0x40000000 := by decide +kernel
  exact Path.start.snoc ⟨around, congrArg some (Prod.ext made rfl)⟩

theorem sockets_accounted_one :
    oneSocket.nextObject = 1 ∧ ∃! h : Handle, (oneSocket.fdTables h.1).live h.2 = some 0 := by
  have made : oneSocket.nextObject = 1 := by decide +kernel
  have exists' : 0 < oneSocket.nextObject ∧ 0 ∉ oneSocket.net.destroyed := by decide +kernel
  exact ⟨made, ((sockets_accounted oneSocket_reached).1 0).mp exists'⟩

theorem next_mono {sim after : Sim} {past : List SysEvent} (accounted : Accounted sim)
    (path : Path SysStep sim past after) : sim.nextObject ≤ after.nextObject := by
  induction path with
  | start => exact Nat.le_refl _
  | snoc before last ih =>
    have effect := effect_of_step (accounted_path accounted before).wellFormed
      (sysStep_iff.mp last)
    rcases objects_step effect with ⟨next, -⟩ | ⟨next, -⟩
    · exact ih.trans (Nat.le_of_eq next.symm)
    · exact ih.trans (next ▸ Nat.le_succ _)

/-- An object never moves to another number. -/
theorem held_path {sim after : Sim} {past : List SysEvent} (accounted : Accounted sim)
    (path : Path SysStep sim past after) {s : SocketId} (made : s < sim.nextObject) {h : Handle}
    (held : (slots after).holds h = some s) : (slots sim).holds h = some s := by
  induction path with
  | start => exact held
  | snoc before last ih =>
    have now := accounted_path accounted before
    have effect := effect_of_step now.wellFormed (sysStep_iff.mp last)
    have old : s ∉ unmade _ := Nat.not_le.mpr (made.trans_le (next_mono accounted before))
    exact ih (held_step (slots_step now.wellFormed now.gone effect) old held)

/-- However far apart two calls are: if both find the same object behind their descriptor,
the same replica makes them, with the same number. So a pipe has one receiver for ever. -/
theorem one_user {seed : U64} {netFaults : FaultSampling.FaultOptions}
    {memories : ReplicaId → ChildMemory.Memory} {past later : List SysEvent} {sim after : Sim}
    {e f : SysEvent} {s : SocketId}
    (path : Path SysStep (Sim.start seed netFaults memories) past sim) (first : Opened sim e s)
    (path' : Path SysStep sim later after) (second : Opened after f s) :
    caller e = caller f ∧ fdOf e = fdOf f := by
  have accounted := accounted_path (accounted_start seed netFaults memories) path
  have made := accounted.wellFormed.opened _ _ _ first
  have held : (slots sim).holds (caller f, fdOf f) = some s :=
    held_path accounted path' made second
  exact Prod.mk.inj (accounted.exact.2 (caller e, fdOf e) _ s first held)

/-- The socket is found by a `read`, and by a `write` after it. -/
theorem one_user_twice :
    let args : Args := #v[0x40000000, 0, 0, 0, 0, 0]
    let after := (sysRead oneSocket 3 args).2
    Opened after (.call 3 .write args (failed EINVAL)) 0 ∧
      fdOf (.call 3 .read args (failed EINVAL)) = fdOf (.call 3 .write args (failed EINVAL)) := by
  intro args after
  let around : Surroundings := ⟨⟨fun _ rng => (false, rng), fun _ => 0⟩, 0, 0, fun _ => 0⟩
  have first : Opened oneSocket (.call 3 .read args (failed EINVAL)) 0 := by
    unfold Opened
    decide +kernel
  have second : Opened after (.call 3 .write args (failed EINVAL)) 0 := by
    unfold Opened
    decide +kernel
  have result : (sysRead oneSocket 3 args).1 = failed EINVAL := by decide +kernel
  have read : SysStep oneSocket (.call 3 .read args (failed EINVAL)) after :=
    ⟨around, congrArg some (Prod.ext result rfl)⟩
  exact ⟨second, (one_user oneSocket_reached first (Path.start.snoc read) second).2⟩

end SocketLifetimes
