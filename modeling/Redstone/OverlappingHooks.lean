import Redstone.RunningHooks

/-!
# Hooks that overlap

What holds however the hooks of the replicas overlap, and how far they are hooks that run
one after the other. They need not be when two datagram sockets are made at the same time, for
the draws for their seeds mix. Otherwise the one difference is a socket that is closed while
a `sendto` or a `connect` of another replica uses it: it goes away when the last of these
returns.
-/

namespace OverlappingHooks

open MachineWords SocketAddr Network FdTable
open SocketSeeds (ReplicaId)
open TraceLoop (Args HookResult)
open Syscalls HookOutcomes HookEffects SocketLifetimes StepRuns Function RunningHooks
open Generators (Xoshiro)
open SplitSeeding
open DatagramPipe (Packet)
open PacketOrigins (SentTo Waits waits_step)
open SocketLinks (net_effect resolve_destroy)

/-- An object that has gone does not come back. -/
theorem gone_for_good {t t' : Running} {e : RunEvent} (sound : Sound t) (step : RunStep t e t')
    {s : SocketId} (gone : s ∈ t.sim.net.destroyed) : s ∈ t'.sim.net.destroyed := by
  cases sound.moves step with
  | commits event taken spared reseeded =>
    rw [reseeded.net]
    refine (spared.destroyed s).mpr ⟨(net_effect (sound.lawful.effect taken)).gone gone, ?_⟩
    exact fun lent => (sound.lawful.there lent).2 gone
  | rests same =>
    rw [same]
    exact gone
  | drops same =>
    rw [same]
    exact Finset.mem_insert_of_mem gone

theorem resolve_step {t t' : Running} {e : RunEvent} (sound : Sound t) (step : RunStep t e t')
    {a : Addr} {s : SocketId} (owned : t.sim.net.resolve a = some s)
    (there : s ∉ t'.sim.net.destroyed) : t'.sim.net.resolve a = some s := by
  cases sound.moves step with
  | commits event taken spared reseeded =>
    rw [reseeded.net] at there ⊢
    exact spared.resolve_iff.mpr ⟨names_step (sound.lawful.effect taken) owned, there⟩
  | rests same =>
    rw [same]
    exact owned
  | drops same =>
    rw [same] at there ⊢
    exact resolve_destroy.mpr ⟨owned, fun here => there (Finset.mem_insert.mpr (Or.inl here))⟩

section Runs
variable {seed : U64} {netFaults : FaultSampling.FaultOptions}
variable {memories : ReplicaId → ChildMemory.Memory}

/-- However the hooks of the replicas overlap: the objects that were made and still exist
are those that a number leads to or a running hook points to, no object has two numbers,
and what an address leads to is one of them. -/
theorem owned_while_running {past : List RunEvent} {t : Running}
    (path : Path RunStep (start seed netFaults memories) past t) :
    (∀ s, s < t.sim.nextObject ∧ s ∉ t.sim.net.destroyed ↔ t.Owned s) ∧
    (∀ (h h' : Handle) s, (t.sim.fdTables h.1).live h.2 = some s →
      (t.sim.fdTables h'.1).live h'.2 = some s → h = h') ∧
    ∀ a s, t.sim.net.resolve a = some s → t.Owned s := by
  have lawful := (sound_path (sound_start seed netFaults memories) path).lawful
  have exists_iff : ∀ s, s < t.sim.nextObject ∧ s ∉ t.sim.net.destroyed ↔ t.Owned s := by
    intro s
    rw [owned_iff, ← lawful.shared.2]
    exact Iff.rfl
  refine ⟨exists_iff, lawful.shared.1, fun a s owned => (exists_iff s).mp ⟨?_, ?_⟩⟩
  · exact lawful.wellFormed.bound a s owned
  · exact (resolve_iff.mp owned).2

/-- An address that leads to an object names it after the next step, even if it is gone. -/
theorem names_running {t t' : Running} {e : RunEvent} (sound : Sound t) (step : RunStep t e t')
    {a : Addr} {s : SocketId} (owned : t.sim.net.resolve a = some s) :
    (t'.sim.net.map.lookup a).join = some s := by
  cases sound.moves step with
  | commits event taken spared reseeded =>
    rw [reseeded.net, spared.same]
    exact names_step (sound.lawful.effect taken) owned
  | rests same =>
    rw [same]
    exact (resolve_iff.mp owned).1
  | drops same =>
    rw [same]
    exact (resolve_iff.mp owned).1

/-- An address leads to a socket as long as a number of the socket is open or a running hook
points to it. As long no `bind` gets the address, and in the step in which the last of these
goes it comes to lead to nothing. -/
theorem address_kept {past later : List RunEvent} {t t' : Running} {a : Addr} {s : SocketId}
    (path : Path RunStep (start seed netFaults memories) past t)
    (owned : t.sim.net.resolve a = some s) (path' : Path RunStep t later t') :
    (t'.sim.net.resolve a = some s ↔ t'.Owned s) ∧
      (t'.Owned s → ∀ p, (t'.sim.net.bind a p).1 = EADDRNOTAVAIL) ∧
      ∀ e t'', RunStep t' e t'' → t'.Owned s → ¬t''.Owned s → t''.sim.net.resolve a = none := by
  have sound := sound_path (sound_start seed netFaults memories) path
  have keeps : s ∉ t'.sim.net.destroyed → t'.sim.net.resolve a = some s := by
    induction path' with
    | start => exact fun _ => owned
    | snoc before last ih =>
      intro there
      have now := sound_path sound before
      exact resolve_step now last (ih fun gone => there (gone_for_good now last gone)) there
  have whole := path_trans path path'
  obtain ⟨exists_iff, -, leads⟩ := owned_while_running whole
  have still : t'.Owned s → t'.sim.net.resolve a = some s :=
    fun has => keeps ((exists_iff s).mpr has).2
  refine ⟨⟨leads a s, still⟩, fun has p => (Net.bind_refused (still has)).1, ?_⟩
  intro e t'' step has hasNot
  have named := names_running (sound_path sound path') step (still has)
  rw [Option.eq_none_iff_forall_ne_some]
  intro p resolved
  obtain rfl := Option.some.inj ((resolve_iff.mp resolved).1.symm.trans named)
  exact hasNot ((owned_while_running (whole.snoc step)).2.2 a p resolved)

/-! ## What is received -/

/-- A packet in a pipe was there before, or a hook that commits sends it. -/
theorem waits_running {t t' : Running} {e : RunEvent} {s : SocketId} {p : Packet}
    (sound : Sound t) (step : RunStep t e t') (waits : Waits s p t'.sim) :
    Waits s p t.sim ∨ ∃ c, e = .commits c ∧ SentTo s p.bytes t.sim c ∧ p.source = default := by
  cases sound.moves step with
  | @commits c mid spare event taken spared reseeded =>
    have seeded : Waits s p spare := by
      obtain ⟨sock, here, queued⟩ := waits
      by_cases new : s = t.sim.nextObject
      · rcases new ▸ reseeded.fresh with same | ⟨made, now, empty⟩
        · exact ⟨sock, same.symm.trans here, queued⟩
        · obtain rfl := Descriptor.datagram.inj (here.symm.trans now)
          rw [empty] at queued
          exact absurd queued (Multiset.notMem_zero p)
      · exact ⟨sock, (reseeded.others s new).symm.trans here, queued⟩
    have here : Waits s p mid := by rwa [Waits, ← spared.objects]
    exact (waits_step (sound.lawful.effect taken) here).imp_right fun sent => ⟨c, event, sent⟩
  | rests same =>
    rw [same] at waits
    exact Or.inl waits
  | drops same =>
    rw [same] at waits
    exact Or.inl waits

/-- Also when hooks overlap and sockets are closed meanwhile: whatever a `recvfrom` receives
was sent before it, by a `sendto` to an address that led to the receiving socket when the
bytes were delivered, and these are the bytes that the sender's memory had then. -/
theorem received_while_running {past earlier later : List RunEvent} {t : Running}
    {r : ReplicaId} {args : Args} {p : Packet} {result : HookResult}
    (path : Path RunStep (start seed netFaults memories) past t)
    (received : past = earlier ++ .commits (.recvfrom r args p result) :: later) :
    ∃ s u u', Path RunStep (start seed netFaults memories) earlier u ∧
      RunStep u (.commits (.recvfrom r args p result)) u' ∧ Path RunStep u' later t ∧
      Opened u.sim (.recvfrom r args p result) s ∧
      ∃ before c between v v', earlier = before ++ .commits c :: between ∧
        Path RunStep (start seed netFaults memories) before v ∧ RunStep v (.commits c) v' ∧
        Path RunStep v' between u ∧ SentTo s p.bytes v.sim c ∧ p.source = default := by
  obtain ⟨u, u', front, step, rest⟩ := path_event path received
  have receives : ∃ now mid, Receives now u.sim r args p result mid := by
    cases step with
    | whole free silent taken spared =>
      obtain ⟨now, done⟩ := taken
      exact ⟨now, _, done⟩
  obtain ⟨now, mid, s, sock, found, waits, top, -⟩ := receives
  obtain ⟨opened, datagram, -⟩ := recvfrom_opened waits
  have absent : ¬Waits s p (start seed netFaults memories).sim := by
    rintro ⟨sock, impossible, -⟩
    cases impossible
  have made : ∀ {past t e t'}, Path RunStep (start seed netFaults memories) past t →
      RunStep t e t' → Waits s p t'.sim → Waits s p t.sim ∨
        ∃ c, e = .commits c ∧ SentTo s p.bytes t.sim c ∧ p.source = default :=
    fun before last => waits_running (sound_path (sound_start seed netFaults memories) before) last
  obtain ⟨before, _, between, v, v', cut, first, sends, back, c, rfl, sent⟩ :=
    path_origin (F := fun t => Waits s p t.sim) front absent ⟨sock, datagram, top.1⟩ made
  exact ⟨s, u, u', front, step, rest, opened, before, c, between, v, v', cut, first, sends, back,
    sent⟩

/-! ## One hook after the other -/

def committed : RunEvent → Option SysEvent
  | .commits e => some e
  | _ => none

/-- One hook at a time, but what a hook destroys may go away later. -/
inductive LateStep (sim : Sim) : Option SysEvent → Sim → Prop where
  | takes {e : SysEvent} {late : Set SocketId} {mid after : Sim} (taken : SysStep sim e mid)
      (there : ∀ s ∈ late, s ∉ sim.net.destroyed) (spared : Spared late mid after) :
      LateStep sim (some e) after
  | goes {s : SocketId} (made : s < sim.nextObject)
      (closed : ∀ h : Handle, (sim.fdTables h.1).live h.2 ≠ some s) :
      LateStep sim none (sim.release s)

/-- No two datagram sockets are being made. -/
def Apart (t : Running) : Prop := ∀ q r, t.Constructs q → t.Constructs r → q = r

/-- The making of a datagram socket does not overlap that of another one. -/
def ApartStep (t : Running) (e : RunEvent) (t' : Running) : Prop := RunStep t e t' ∧ Apart t'

/-- The state of hooks one after the other: the draws for a socket that is being made are
still to come. -/
structure Ahead (t : Running) (sim : Sim) : Prop where
  same : t.sim = withRng sim t.sim.rng
  idle : (∀ r, ¬t.Constructs r) → t.sim.rng = sim.rng
  drew : ∀ {r args words}, t.stages r = some (.seeding args words) →
    Drew sim.rng words t.sim.rng

theorem Ahead.eq {t : Running} {sim : Sim} (ahead : Ahead t sim)
    (idle : ∀ r, ¬t.Constructs r) : t.sim = sim := by
  rw [ahead.same, ahead.idle idle, withRng_self]

section
variable {t : Running} {sim : Sim} (ahead : Ahead t sim)
include ahead

theorem Ahead.net : sim.net = t.sim.net := by
  rw [ahead.same]
  rfl

theorem Ahead.fdTables : sim.fdTables = t.sim.fdTables := by
  rw [ahead.same]
  rfl

theorem Ahead.nextObject : sim.nextObject = t.sim.nextObject := by
  rw [ahead.same]
  rfl

theorem Ahead.memory : sim.memories = t.sim.memories := by
  rw [ahead.same]
  rfl

end

theorem Ahead.back {t : Running} {sim : Sim} (ahead : Ahead t sim) :
    withRng t.sim sim.rng = sim := by
  rw [ahead.same]
  rfl

/-- No hook begins or ends the making of a socket. -/
theorem Ahead.moved {t t' : Running} {sim sim' : Sim} (ahead : Ahead t sim)
    (same : t'.sim = withRng sim' t'.sim.rng) (rng : t'.sim.rng = t.sim.rng)
    (base : sim'.rng = sim.rng) (seeding : ∀ r args words,
      t'.stages r = some (.seeding args words) ↔ t.stages r = some (.seeding args words)) :
    Ahead t' sim' := by
  refine ⟨same, fun idle => ?_, fun here => ?_⟩
  · rw [rng, base]
    refine ahead.idle fun r => ?_
    rintro ⟨args, words, here⟩
    exact idle r ⟨args, words, (seeding r args words).mpr here⟩
  · rw [rng, base]
    exact ahead.drew ((seeding _ _ _).mp here)

/-- A stage is replaced, and neither is one of the making of a socket. -/
theorem seeding_update {stages : ReplicaId → Option Stage} {r : ReplicaId} {now : Option Stage}
    (before : ∀ args words, stages r ≠ some (.seeding args words))
    (after : ∀ args words, now ≠ some (.seeding args words)) (q : ReplicaId) (args : Args)
    (words : List U64) : update stages r now q = some (.seeding args words) ↔
      stages q = some (.seeding args words) := by
  by_cases same : q = r
  · rw [same, update_self]
    exact iff_of_false (after args words) (before args words)
  · rw [update_of_ne same]

theorem Spared.withRng {kept : Set SocketId} {mid after : Sim} (spared : Spared kept mid after)
    (rng : Xoshiro) : Spared kept (withRng mid rng) (withRng after rng) := by
  refine ⟨?_, spared.destroyed⟩
  rw [spared.same]
  rfl

/-- What hooks one after the other do when hooks that overlap make a step. -/
inductive Follows (t : Running) (e : RunEvent) (t' : Running) (sim : Sim) : Prop where
  | takes {c : SysEvent} {mid sim' : Sim} (event : committed e = some c)
      (taken : SysStep sim c mid) (spared : Spared (pointed t.stages) mid sim')
      (points : pointed t'.stages = pointed t.stages) (ahead : Ahead t' sim')
  | rests (silent : committed e = none) (ahead : Ahead t' sim)
  | goes {s : SocketId} (silent : committed e = none) (lent : s ∈ pointed t.stages)
      (closed : ∀ h : Handle, (t.sim.fdTables h.1).live h.2 ≠ some s)
      (ahead : Ahead t' (sim.release s))

/-- A step that draws nothing is the same whatever was drawn. -/
theorem Ahead.takes {t t' : Running} {sim mid : Sim} {c : SysEvent} (ahead : Ahead t sim)
    (silent : ¬Seeds c) (taken : SysStep t.sim c mid)
    (spared : Spared (pointed t.stages) mid t'.sim)
    (points : pointed t'.stages = pointed t.stages) (seeding : ∀ r args words,
      t'.stages r = some (.seeding args words) ↔ t.stages r = some (.seeding args words)) :
    Follows t (.commits c) t' sim := by
  have again := sysStep_withRng silent taken sim.rng
  rw [ahead.back] at again
  have same : t'.sim.rng = mid.rng := by rw [spared.same]
  have rng : t'.sim.rng = t.sim.rng := same.trans (rng_of_silent silent taken)
  exact .takes rfl again (Spared.withRng spared sim.rng) points (ahead.moved rfl rng rfl seeding)

theorem follows_step {t t' : Running} {e : RunEvent} {sim : Sim} (sound : Sound t)
    (apart : Apart t) (apart' : Apart t') (ahead : Ahead t sim) (step : RunStep t e t') :
    Follows t e t' sim := by
  cases step with
  | whole free silent taken spared =>
    exact ahead.takes silent taken spared rfl fun _ _ _ => Iff.rfl
  | @finds r seeker args stack own target after free asked =>
    rw [(ask_spec asked).1]
    refine .rests rfl (ahead.moved ahead.same rfl rfl (seeding_update ?_ nofun))
    rw [free]
    nofun
  | @uses r seeker args own target around result after found ran =>
    obtain ⟨taken, spared⟩ := sound.finishes found ran
    have silent : ¬Seeds (.call r seeker.call args result) := by
      cases seeker <;> exact id
    refine ahead.takes silent taken spared
      ((pointed_set t.stages r rfl).trans (pointed_at found rfl).symm) (seeding_update ?_ nofun)
    rw [found]
    nofun
  | @shares r target used owned =>
    refine .rests rfl (ahead.moved ahead.same rfl rfl (seeding_update ?_ nofun))
    rw [used]
    nofun
  | @drops r target used last =>
    refine .goes rfl ⟨r, _, used, rfl⟩ (fun h here => last (Or.inl ⟨h, here⟩))
      (ahead.moved ?_ rfl rfl (seeding_update ?_ nofun))
    · change t.sim.release target = withRng (sim.release target) t.sim.rng
      rw [ahead.same]
      rfl
    · rw [used]
      nofun
  | @seeds r args free asks =>
    have now : Running.Constructs ⟨t.sim, update t.stages r (some (.seeding args []))⟩ r :=
      ⟨args, [], update_self r _ _⟩
    have idle : ∀ q, ¬t.Constructs q := by
      rintro q ⟨args', words, here⟩
      have other : q ≠ r := by
        rintro rfl
        cases free.symm.trans here
      exact other (apart' q r ⟨args', words, (update_of_ne other _ _).trans here⟩ now)
    have base := ahead.idle idle
    refine .rests rfl ⟨ahead.same, fun none => absurd now (none r), fun here => ?_⟩
    rcases stage_before here with ⟨-, same⟩ | ⟨-, was⟩
    · obtain ⟨-, rfl⟩ := Stage.seeding.inj (Option.some.inj same)
      exact base ▸ Drew.nil _
    · exact absurd ⟨_, _, was⟩ (idle _)
  | @draws r args words word rng begun more drawn =>
    have alone := drawn fun q ⟨args', words', here, _⟩ =>
      apart q r ⟨args', words', here⟩ ⟨args, words, begun⟩
    have next := (ahead.drew begun).snoc
    rw [alone] at next
    refine .rests rfl ⟨?_, fun none => ?_, fun here => ?_⟩
    · change withRng t.sim rng = withRng sim rng
      rw [ahead.same, withRng_withRng]
    · exact absurd ⟨args, _, update_self r _ _⟩ (none r)
    · rcases stage_before here with ⟨-, same⟩ | ⟨other, was⟩
      · obtain ⟨-, rfl⟩ := Stage.seeding.inj (Option.some.inj same)
        exact next
      · exact absurd (apart _ r ⟨_, _, was⟩ ⟨args, words, begun⟩) other
  | @makes r args words seed result mid after begun four ran spared =>
    have seeded := (ahead.drew begun).seed four
    have whole := sysSocket_seeded (sound.asks begun) sim r
    rw [seeded, ← ahead.same, ran] at whole
    let around : Surroundings := ⟨⟨fun _ rng => (false, rng), fun _ => 0⟩, 0, 0, fun _ => 0⟩
    refine .takes rfl ⟨around, congrArg some whole⟩ spared (pointed_begun begun rfl)
      ⟨rfl, fun _ => rfl, fun here => ?_⟩
    rcases stage_before here with ⟨-, same⟩ | ⟨other, was⟩
    · cases same
    · exact absurd (apart _ r ⟨_, _, was⟩ ⟨args, words, begun⟩) other

theorem late_step {t t' : Running} {e : RunEvent} {sim : Sim} (sound : Sound t)
    (ahead : Ahead t sim) (follows : Follows t e t' sim) :
    ∃ events sim', Path LateStep sim events sim' ∧
      events.filterMap id = (committed e).toList ∧ Ahead t' sim' := by
  cases follows with
  | @takes c mid sim' event taken spared points ahead' =>
    have there : ∀ s ∈ pointed t.stages, s ∉ sim.net.destroyed := fun s lent =>
      ahead.net ▸ (sound.lawful.there lent).2
    exact ⟨[some c], sim', Path.start.snoc (.takes taken there spared), by rw [event]; rfl, ahead'⟩
  | rests silent ahead' => exact ⟨[], sim, .start, by rw [silent]; rfl, ahead'⟩
  | @goes s silent lent closed ahead' =>
    have made : s < sim.nextObject := ahead.nextObject ▸ (sound.lawful.there lent).1
    have held : ∀ h : Handle, (sim.fdTables h.1).live h.2 ≠ some s := ahead.fdTables ▸ closed
    exact ⟨[none], _, Path.start.snoc (.goes made held), by rw [silent]; rfl, ahead'⟩

theorem apart_of_idle {t : Running} (idle : ∀ r, ¬t.Constructs r) : Apart t :=
  fun q _ makes => absurd makes (idle q)

theorem ahead_start (sim : Sim) : Ahead ⟨sim, fun _ => none⟩ sim :=
  ⟨rfl, fun _ => rfl, nofun⟩

theorem apart_start (sim : Sim) : Apart ⟨sim, fun _ => none⟩ :=
  apart_of_idle fun _ ⟨_, _, here⟩ => nomatch here

/-- Hooks that overlap, but for the making of datagram sockets, do what they do one after
the other, in the order in which they use what they found, except that closed sockets go
away later. -/
theorem runs_late {past : List RunEvent} {t : Running}
    (path : Path ApartStep (start seed netFaults memories) past t) :
    ∃ events sim, Path LateStep (Sim.start seed netFaults memories) events sim ∧
      events.filterMap id = past.filterMap committed ∧ Ahead t sim := by
  have matched : ∀ (t : Running) (e : RunEvent) (t' : Running) (sim : Sim),
      Ahead t sim ∧ Sound t ∧ Apart t → ApartStep t e t' →
        ∃ events sim', Path LateStep sim events sim' ∧
          events.filterMap id = (committed e).toList ∧ Ahead t' sim' ∧ Sound t' ∧ Apart t' := by
    rintro t e t' sim ⟨ahead, sound, apart⟩ ⟨step, apart'⟩
    obtain ⟨events, sim', front, same, ahead'⟩ :=
      late_step sound ahead (follows_step sound apart apart' ahead step)
    exact ⟨events, sim', front, same, ahead', sound_step sound step, apart'⟩
  obtain ⟨events, sim, front, same, ahead, -⟩ :=
    weak_simulation (fun t sim => Ahead t sim ∧ Sound t ∧ Apart t) committed id matched
      ⟨ahead_start _, sound_start seed netFaults memories, apart_start _⟩ path
  exact ⟨events, sim, front, same, ahead⟩

/-- Every object that a running hook points to has a number. -/
def Calm (t : Running) : Prop :=
  ∀ s ∈ pointed t.stages, ∃ h : Handle, (t.sim.fdTables h.1).live h.2 = some s

/-- No hook closes what another one points to, and no two make datagram sockets. -/
def CalmStep (t : Running) (e : RunEvent) (t' : Running) : Prop := ApartStep t e t' ∧ Calm t'

theorem spared_eq {kept : Set SocketId} {mid after : Sim} (spared : Spared kept mid after)
    (there : ∀ s ∈ kept, s ∉ mid.net.destroyed) : after = mid := by
  have destroyed : after.net.destroyed = mid.net.destroyed := by
    ext s
    rw [spared.destroyed]
    exact ⟨And.left, fun gone => ⟨gone, fun held => there s held gone⟩⟩
  rw [spared.same, destroyed]

theorem calm_path {past : List RunEvent} {t : Running}
    (path : Path CalmStep (start seed netFaults memories) past t) :
    Calm t ∧ Apart t ∧ ∃ sim,
      Path SysStep (Sim.start seed netFaults memories) (past.filterMap committed) sim ∧
        Ahead t sim := by
  induction path with
  | start =>
    exact ⟨fun s lent => absurd lent (pointed_start ▸ Set.notMem_empty s), apart_start _, _,
      .start, ahead_start _⟩
  | @snoc past t t' e before last ih =>
    obtain ⟨⟨step, apart'⟩, calm⟩ := last
    obtain ⟨wasCalm, apart, sim, ih, ahead⟩ := ih
    have sound := sound_path (sound_start seed netFaults memories)
      (path_mono (fun step => step.1.1) before)
    have hidden : committed e = none → (past ++ [e]).filterMap committed =
        past.filterMap committed := by
      intro none
      rw [filterMap_snoc, none, Option.toList_none, List.append_nil]
    refine ⟨calm, apart', ?_⟩
    cases follows_step sound apart apart' ahead step with
    | @takes c mid sim' event taken spared points ahead' =>
      have accounted := accounted_path (accounted_start seed netFaults memories) ih
      have exact := (accounted_step accounted taken).exact
      have tables : t'.sim.fdTables = mid.fdTables := by
        rw [ahead'.same]
        exact spared.fdTables
      have same : sim' = mid := by
        refine spared_eq spared fun s lent => ?_
        obtain ⟨h, here⟩ := calm s (points ▸ lent)
        rw [tables] at here
        exact ((exact.1 s).mpr ⟨h, here⟩).2
      rw [filterMap_snoc, event]
      exact ⟨sim', ih.snoc (same ▸ taken), ahead'⟩
    | rests silent ahead' =>
      rw [hidden silent]
      exact ⟨sim, ih, ahead'⟩
    | goes silent lent closed ahead' =>
      obtain ⟨h, here⟩ := wasCalm _ lent
      exact absurd here (closed h)

/-- If no socket is closed while a hook points to it and no two datagram sockets are made at
the same time, then each hook happens at one moment between its begin and its end: the run
is one of hooks that never overlap. A state in which a hook points to a closed socket is
none that such hooks reach. -/
theorem atomic_while_calm {past : List RunEvent} {t : Running} :
    (Path CalmStep (start seed netFaults memories) past t →
      ∃ sim, Path SysStep (Sim.start seed netFaults memories) (past.filterMap committed) sim ∧
        Ahead t sim) ∧
    (Path RunStep (start seed netFaults memories) past t →
      ∀ events, Path SysStep (Sim.start seed netFaults memories) events t.sim → Calm t) := by
  refine ⟨fun path => (calm_path path).2.2, fun path events atomic s lent => ?_⟩
  have lawful := (sound_path (sound_start seed netFaults memories) path).lawful
  have accounted := accounted_path (accounted_start seed netFaults memories) atomic
  exact (accounted.exact.1 s).mp (lawful.there lent)

end Runs

/-! ## Hooks that do not overlap -/

/-- All hooks but one have returned, and that one makes a datagram socket. -/
def making (sim : Sim) (r : ReplicaId) (args : Args) (words : List U64) : Running :=
  ⟨sim, update (fun _ => none) r (some (.seeding args words))⟩

section Making
variable {sim after : Sim} {r : ReplicaId} {args : Args} {words : List U64}

theorem spared_none {stages : ReplicaId → Option Stage} (none : pointed stages = ∅) :
    Spared (pointed stages) sim sim :=
  spared_refl fun s lent => absurd (none ▸ lent) (Set.notMem_empty s)

theorem making_pointed : pointed (making sim r args words).stages = ∅ :=
  (pointed_seeding _ r rfl).trans ((pointed_free rfl).trans pointed_start)

theorem calm_of_pointed {t : Running} (none : pointed t.stages = ∅) : Calm t := by
  intro s lent
  rw [none] at lent
  exact absurd lent (Set.notMem_empty s)

theorem making_stages : (making sim r args words).stages =
    update (fun _ => none) r (some (.seeding args words)) := rfl

theorem making_at : (making sim r args words).stages r = some (.seeding args words) := by
  rw [making_stages, update_self]

theorem making_update (stage : Option Stage) :
    update (making sim r args words).stages r stage = update (fun _ => none) r stage :=
  update_idem _ _ _

theorem making_step {t : Running} {e : RunEvent} (step : RunStep t e (making sim r args words)) :
    CalmStep t e (making sim r args words) := by
  have alone : ∀ q, (making sim r args words).Constructs q → q = r := by
    rintro q ⟨args', words', here⟩
    by_contra other
    rw [making_stages, update_of_ne other] at here
    cases here
  exact ⟨⟨step, fun q q' one another => (alone q one).trans (alone q' another).symm⟩,
    calm_of_pointed making_pointed⟩

theorem making_draws (more : words.length < 4) :
    CalmStep (making sim r args words) (.draws r)
      (making (withRng sim sim.rng.next.2) r args (words ++ [sim.rng.next.1])) := by
  have step := RunStep.draws (t := making sim r args words) making_at more fun _ => rfl
  rw [making_update] at step
  exact making_step step

theorem making_makes {result : HookResult} {seed : Xoshiro} (four : seedOf words = some seed)
    (ran : finishSocket sim r args seed = (result, after)) :
    CalmStep (making sim r args words) (.commits (.call r .socket args result))
      ⟨after, fun _ => none⟩ := by
  have step := RunStep.makes making_at four ran (spared_none making_pointed)
  rw [making_update, update_eq_self] at step
  exact ⟨⟨step, apart_start after⟩, calm_of_pointed pointed_start⟩

/-- A whole `sys_socket`, draw by draw. -/
theorem socket_path {result : HookResult} (asks : AsksDatagram args)
    (taken : SysStep sim (.call r .socket args result) after) :
    ∃ t, Path CalmStep ⟨sim, fun _ => none⟩
        [.seeds r args, .draws r, .draws r, .draws r, .draws r] t ∧
      CalmStep t (.commits (.call r .socket args result)) ⟨after, fun _ => none⟩ := by
  obtain ⟨around, ran⟩ := taken
  have parts := (sysSocket_seeded asks sim r).symm.trans (Option.some.inj ran)
  have begins : CalmStep ⟨sim, fun _ => none⟩ (.seeds r args) (making sim r args []) :=
    making_step (.seeds rfl asks)
  have first := (Path.start.snoc begins).snoc (making_draws (show 0 < 4 by decide))
  have second := first.snoc (making_draws (show 1 < 4 by decide))
  have third := second.snoc (making_draws (show 2 < 4 by decide))
  exact ⟨_, third.snoc (making_draws (show 3 < 4 by decide)), making_makes rfl parts⟩

/-- Hooks that do not overlap are such a run. -/
theorem apart_path {past : List SysEvent} (path : Path SysStep sim past after) :
    ∃ events, Path CalmStep ⟨sim, fun _ => none⟩ events ⟨after, fun _ => none⟩ ∧
      events.filterMap committed = past := by
  have matched : ∀ (sim : Sim) (e : SysEvent) (sim' : Sim) (t : Running), t = ⟨sim, fun _ => none⟩ →
      SysStep sim e sim' → ∃ events t', Path CalmStep t events t' ∧
        events.filterMap committed = (some e).toList ∧ t' = ⟨sim', fun _ => none⟩ := by
    rintro sim e sim' _ rfl taken
    by_cases seeds : Seeds e
    · obtain ⟨r, args, result, rfl, asks⟩ := call_of_seeds seeds
      obtain ⟨t, draws, makes⟩ := socket_path asks taken
      exact ⟨_, _, draws.snoc makes, rfl, rfl⟩
    · have step : RunStep ⟨sim, fun _ => none⟩ (.commits e) ⟨sim', fun _ => none⟩ :=
        .whole rfl seeds taken (spared_none pointed_start)
      have calm : CalmStep ⟨sim, fun _ => none⟩ (.commits e) ⟨sim', fun _ => none⟩ :=
        ⟨⟨step, apart_start sim'⟩, calm_of_pointed pointed_start⟩
      exact ⟨[.commits e], _, Path.start.snoc calm, rfl, rfl⟩
  have idle : (fun sim t => t = Running.mk sim fun _ => none) sim ⟨sim, fun _ => none⟩ := rfl
  obtain ⟨events, _, run, same, rfl⟩ := weak_simulation _ some committed matched idle path
  exact ⟨events, run, same.trans List.filterMap_some⟩

end Making

/-! Replica 4 sends to the bound socket of replica 3, which closes it meanwhile. -/

def sendsThree : Args := #v[0x40000000, 1000, 3, 0, 1000, 16]

def bothOpen : Sim := (sysSocket PacketOrigins.withAddress 4 opensDatagram).2

def sending : Running :=
  ⟨bothOpen, update (fun _ => none) 4 (some (.found .sendto sendsThree 1 0))⟩

def sparing (sim : Sim) (s : SocketId) : Sim :=
  { sim with net := ⟨sim.net.map, sim.net.destroyed \ {s}⟩ }

def closedMeanwhile : Running :=
  ⟨sparing (sysClose bothOpen 3 PacketOrigins.namesFirst).2 0, sending.stages⟩

def sent : Running :=
  ⟨((finishSendto PacketOrigins.quiet bothOpen 4 sendsThree 0).getD (.passthrough, bothOpen)).2,
    update sending.stages 4 (some (.returning 0))⟩

/-- The only hook that has not returned makes no socket. -/
theorem idle_of_stages {t : Running} {r : ReplicaId} {stage : Stage}
    (alone : t.stages = update (fun _ => none) r (some stage))
    (other : ∀ args words, stage ≠ .seeding args words) (q : ReplicaId) : ¬t.Constructs q := by
  rintro ⟨args, words, here⟩
  rw [alone] at here
  rcases stage_before here with ⟨-, same⟩ | ⟨-, was⟩
  · exact other args words (Option.some.inj same)
  · cases was

theorem sent_idle : ∀ q, ¬sent.Constructs q :=
  idle_of_stages (update_idem _ _ _) nofun

theorem closedMeanwhile_idle : ∀ q, ¬closedMeanwhile.Constructs q :=
  idle_of_stages rfl nofun

theorem sparing_spared (sim : Sim) (s : SocketId) : Spared {s} sim (sparing sim s) where
  same := rfl
  destroyed := fun _ => Finset.mem_sdiff.trans (and_congr_right' (not_congr Finset.mem_singleton))

theorem pointed_sending : pointed sending.stages = {0} := by
  rw [sending, pointed_set _ 4 rfl, pointed_free rfl, pointed_start]
  exact insert_empty_eq 0

theorem pointed_sent : pointed sent.stages = {0} := by
  have found : sending.stages 4 = some (.found .sendto sendsThree 1 0) := rfl
  exact (pointed_set _ 4 rfl).trans ((pointed_at found rfl).symm.trans pointed_sending)

theorem bothOpen_reached :
    Path SysStep PacketOrigins.fresh [.call 3 .socket opensDatagram (.handled 0x40000000),
      .call 3 .bind PacketOrigins.namesFirst (.handled 0),
      .call 4 .socket opensDatagram (.handled 0x40000000)] bothOpen := by
  have made : (sysSocket PacketOrigins.withAddress 4 opensDatagram).1 = .handled 0x40000000 := by
    decide +kernel
  exact PacketOrigins.withAddress_reached.snoc
    ⟨PacketOrigins.quiet, congrArg some (Prod.ext made rfl)⟩

theorem sending_reached :
    ∃ past, Path CalmStep (start 7 FaultSampling.defaultFaults PacketOrigins.fresh.memories) past
        sending ∧
      past.filterMap committed = [.call 3 .socket opensDatagram (.handled 0x40000000),
        .call 3 .bind PacketOrigins.namesFirst (.handled 0),
        .call 4 .socket opensDatagram (.handled 0x40000000)] := by
  have objects : (ask .sendto PacketOrigins.quiet.stack bothOpen 4 sendsThree).map
      (fun found => (found.1, found.2.1)) = some (1, 0) := by decide +kernel
  obtain ⟨⟨own, target, after⟩, asked, same⟩ := Option.map_eq_some_iff.mp objects
  obtain ⟨rfl, rfl⟩ := Prod.mk.inj same
  have found : RunStep ⟨bothOpen, fun _ => none⟩ (.finds 4 .sendto sendsThree) sending := by
    rw [(ask_spec asked).1] at asked
    exact .finds rfl asked
  have holds : (bothOpen.fdTables 3).live 0x40000000 = some 0 := by decide +kernel
  obtain ⟨past, before, calls⟩ := apart_path bothOpen_reached
  refine ⟨past ++ [.finds 4 .sendto sendsThree],
    before.snoc ⟨⟨found, apart_of_idle (idle_of_stages rfl nofun)⟩, fun s lent => ?_⟩, ?_⟩
  · rw [pointed_sending] at lent
    exact ⟨(3, 0x40000000), lent ▸ holds⟩
  · rw [filterMap_snoc, calls]
    rfl

theorem closedMeanwhile_step :
    RunStep sending (.commits (.call 3 .close PacketOrigins.namesFirst (.handled 0)))
      closedMeanwhile := by
  have result : (sysClose bothOpen 3 PacketOrigins.namesFirst).1 = .handled 0 := by
    decide +kernel
  exact .whole rfl id ⟨PacketOrigins.quiet, congrArg some (Prod.ext result rfl)⟩
    (pointed_sending ▸ sparing_spared _ 0)

theorem sent_step :
    CalmStep sending (.commits (.call 4 .sendto sendsThree (.handled 3))) sent := by
  have result : (finishSendto PacketOrigins.quiet bothOpen 4 sendsThree 0).map Prod.fst =
      some (.handled 3) := by decide +kernel
  obtain ⟨⟨res, after⟩, ran, rfl⟩ := Option.map_eq_some_iff.mp result
  have same : sent = ⟨after, update sending.stages 4 (some (.returning 0))⟩ := by
    rw [sent, ran]
    rfl
  have found : sending.stages 4 = some (.found .sendto sendsThree 1 0) := rfl
  have holds : (sent.sim.fdTables 3).live 0x40000000 = some 0 := by decide +kernel
  refine ⟨⟨same ▸ .uses found ran, apart_of_idle sent_idle⟩, fun s lent => ?_⟩
  rw [pointed_sent] at lent
  exact ⟨(3, 0x40000000), lent ▸ holds⟩

/-- The close has returned, and the socket is there. -/
theorem owned_while_running_closed :
    (closedMeanwhile.sim.fdTables 3).live 0x40000000 = none ∧ closedMeanwhile.Owned 0 := by
  obtain ⟨past, path, -⟩ := sending_reached
  have whole := (path_mono (fun step => step.1.1) path).snoc closedMeanwhile_step
  have there : 0 < closedMeanwhile.sim.nextObject ∧ 0 ∉ closedMeanwhile.sim.net.destroyed := by
    decide +kernel
  exact ⟨by decide +kernel, ((owned_while_running whole).1 0).mp there⟩

/-- Replica 4 cannot bind its own socket to the address. -/
theorem address_kept_closed :
    (closedMeanwhile.sim.net.bind default 1).1 = EADDRNOTAVAIL := by
  obtain ⟨past, path, -⟩ := sending_reached
  have owned : sending.sim.net.resolve default = some 0 := by decide +kernel
  have points : closedMeanwhile.Owned 0 := Or.inr ⟨4, _, rfl, rfl⟩
  exact (address_kept (path_mono (fun step => step.1.1) path) owned
    (Path.start.snoc closedMeanwhile_step)).2.1 points 1

/-- Replica 3 receives the three bytes before the `sendto` returns. -/
theorem received_while_running_early :
    ∃ s u result u' t v c v', RunStep u (.commits (.recvfrom 3 PacketOrigins.namesFirst
        ⟨0, [2, 0, 0], default⟩ result)) u' ∧ Path RunStep u' [] t ∧
      t.stages 4 = some (.returning 0) ∧ RunStep v (.commits c) v' ∧
      SentTo s [2, 0, 0] v.sim c := by
  have waits : (sent.sim.objects 0).asDatagram.map (fun sock => sock.inbound.packets) =
      some {⟨0, [2, 0, 0], default⟩} := by decide +kernel
  obtain ⟨sock, kind, packets⟩ := Option.map_eq_some_iff.mp waits
  have opened : (sent.sim.fdTables 3).live 0x40000000 = some 0 := by decide +kernel
  have simulated : isSimulated ((PacketOrigins.namesFirst.get 0).setWidth 32) = true := by decide
  have found := sysRecvfrom_eq simulated opened (datagram_of_asDatagram kind)
  have top : sock.inbound.IsTop ⟨0, [2, 0, 0], default⟩ := by
    rw [DatagramPipe.Pipe.IsTop, packets]
    refine ⟨Multiset.mem_singleton_self _, fun q queued => ?_⟩
    obtain rfl := Multiset.mem_singleton.mp queued
    decide
  obtain ⟨result, mid, received⟩ : ∃ result mid, Receives 0 sent.sim 3 PacketOrigins.namesFirst
      ⟨0, [2, 0, 0], default⟩ result mid := ⟨_, _, 0, sock, _, found, top, by decide, rfl⟩
  have last : RunStep sent (.commits (.recvfrom 3 PacketOrigins.namesFirst
      ⟨0, [2, 0, 0], default⟩ result)) ⟨sparing mid 0, sent.stages⟩ :=
    .whole rfl id ⟨0, received⟩ (pointed_sent ▸ sparing_spared mid 0)
  obtain ⟨past, path, -⟩ := sending_reached
  have whole := ((path_mono (fun step => step.1.1) path).snoc sent_step.1.1).snoc last
  obtain ⟨s, u, u', -, receives, rest, -, -, c, -, v, v', -, -, sends, -, from_, -⟩ :=
    received_while_running whole rfl
  have inside : sent.stages 4 = some (.returning 0) := update_self 4 _ sending.stages
  exact ⟨s, u, result, u', _, v, c, v', receives, rest, inside, sends, from_⟩

/-- The committed calls, with the close among them. -/
theorem runs_late_closed :
    ∃ events, Path LateStep PacketOrigins.fresh events closedMeanwhile.sim ∧
      events.filterMap id = [.call 3 .socket opensDatagram (.handled 0x40000000),
        .call 3 .bind PacketOrigins.namesFirst (.handled 0),
        .call 4 .socket opensDatagram (.handled 0x40000000),
        .call 3 .close PacketOrigins.namesFirst (.handled 0)] := by
  obtain ⟨past, path, calls⟩ := sending_reached
  obtain ⟨events, sim, run, same, ahead⟩ := runs_late ((path_mono And.left path).snoc
    ⟨closedMeanwhile_step, apart_of_idle closedMeanwhile_idle⟩)
  rw [filterMap_snoc, calls] at same
  exact ⟨events, ahead.eq closedMeanwhile_idle ▸ run, same⟩

/-- The send goes through as a whole if the socket stays open. -/
theorem atomic_while_calm_sent :
    Path SysStep PacketOrigins.fresh [.call 3 .socket opensDatagram (.handled 0x40000000),
      .call 3 .bind PacketOrigins.namesFirst (.handled 0),
      .call 4 .socket opensDatagram (.handled 0x40000000),
      .call 4 .sendto sendsThree (.handled 3)] sent.sim := by
  obtain ⟨past, path, calls⟩ := sending_reached
  obtain ⟨sim, run, ahead⟩ := atomic_while_calm.1 (path.snoc sent_step)
  rw [filterMap_snoc, calls] at run
  exact ahead.eq sent_idle ▸ run

end OverlappingHooks
