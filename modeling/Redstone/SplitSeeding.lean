import Mathlib.Tactic.SplitIfs
import Redstone.GeneratorBytes
import Redstone.HookEffects

/-!
# The draws for a datagram socket

The constructor of a datagram socket draws four words of the simulator's generator, which
the threads of all replicas share without a lock, and then `sys_socket` looks for a number.
Here `sys_socket` comes in these parts. No other hook reads the generator or moves it.
-/

namespace SplitSeeding

open MachineWords Generators SocketAddr Network DatagramPipe FdTable ParseAddr
open GeneratorBytes (drawn later drawn_add)
open SocketSeeds (ReplicaId family SOCK_STREAM SOCK_DGRAM)
open TraceLoop (Args HookResult)
open Syscalls HookOutcomes HookEffects Function

/-- The call gets as far as `make_shared<datagram_socket>`. -/
def AsksDatagram (args : Args) : Prop :=
  (family ((args.get 0).setWidth 32)).isSome = true ∧ (args.get 1).setWidth 32 = SOCK_DGRAM

instance (args : Args) : Decidable (AsksDatagram args) :=
  inferInstanceAs (Decidable (_ ∧ _))

/-- The call makes a datagram socket. -/
def Seeds : SysEvent → Prop
  | .call _ .socket args _ => AsksDatagram args
  | _ => False

theorem call_of_seeds {e : SysEvent} (seeds : Seeds e) :
    ∃ r args result, e = .call r .socket args result ∧ AsksDatagram args := by
  cases e with
  | call r call args result =>
    cases call with
    | socket => exact ⟨r, args, result, rfl, seeds⟩
    | _ => exact absurd seeds id
  | _ => exact absurd seeds id

/-- The words drawn, once there are four, as the state of the pipe's generator. -/
def seedOf : List U64 → Option Xoshiro
  | [a, b, c, d] => some ⟨a, b, c, d⟩
  | _ => none

/-- `sys_socket` from `make_shared` on. -/
def install (sim : Sim) (r : ReplicaId) (sock : SocketId) : HookResult × Sim :=
  let table := sim.fdTables r
  let (fd, inserted) := table.insert (some sock)
  let sim := { sim with fdTables := update sim.fdTables r inserted }
  if fd.toInt < 0 then (failed EMFILE, sim.release sock)
  else
    match table.live fd with
    | none => (handledInt fd, sim)
    | some old => (handledInt fd, sim.release old)

/-- `sys_socket` for a datagram socket whose pipe has its seed. -/
def finishSocket (sim : Sim) (r : ReplicaId) (args : Args) (seed : Xoshiro) :
    HookResult × Sim :=
  match family ((args.get 0).setWidth 32) with
  | none => (failed EINVAL, sim)
  | some af =>
    let (sock, sim) := sim.construct (.datagram ⟨af, opened sim.netFaults seed⟩)
    install sim r sock

theorem sysSocket_eq (sim : Sim) (r : ReplicaId) (args : Args) : sysSocket sim r args =
    match family ((args.get 0).setWidth 32) with
    | none => (failed EINVAL, sim)
    | some af =>
      match makeSocket sim af ((args.get 1).setWidth 32) with
      | none => (failed EINVAL, sim)
      | some (sock, sim) => install sim r sock := rfl

def withRng (sim : Sim) (rng : Xoshiro) : Sim := { sim with rng }

/-- The parts are the whole: four draws, and the rest. -/
theorem sysSocket_seeded {args : Args} (asks : AsksDatagram args) (sim : Sim) (r : ReplicaId) :
    sysSocket sim r args = finishSocket (withRng sim (seedFrom Xoshiro.next sim.rng).2) r args
      (seedFrom Xoshiro.next sim.rng).1 := by
  obtain ⟨known, type⟩ := asks
  obtain ⟨af, family⟩ := Option.isSome_iff_exists.mp known
  have other : ¬SOCK_DGRAM = SOCK_STREAM := by decide
  simp only [sysSocket_eq, finishSocket, family, type, makeSocket, if_neg other, if_true]
  rfl

/-! ## What was drawn -/

/-- The words are what the generator gave from `base` on, and it is after them now. -/
def Drew (base : Xoshiro) (words : List U64) (rng : Xoshiro) : Prop :=
  words = drawn Xoshiro.next words.length base ∧ rng = later Xoshiro.next words.length base

theorem Drew.nil (base : Xoshiro) : Drew base [] base := ⟨rfl, rfl⟩

theorem Drew.snoc {base rng : Xoshiro} {words : List U64} (drew : Drew base words rng) :
    Drew base (words ++ [rng.next.1]) rng.next.2 := by
  obtain ⟨same, rfl⟩ := drew
  rw [Drew, List.length_append, List.length_singleton, drawn_add, ← same]
  exact ⟨rfl, (iterate_succ_apply' (fun rng => (Xoshiro.next rng).2) words.length base).symm⟩

theorem Drew.seed {base rng seed : Xoshiro} {words : List U64} (drew : Drew base words rng)
    (four : seedOf words = some seed) : seedFrom Xoshiro.next base = (seed, rng) := by
  obtain ⟨a, b, c, d, rfl⟩ : ∃ a b c d, words = [a, b, c, d] := by
    match words, four with
    | [a, b, c, d], _ => exact ⟨a, b, c, d, rfl⟩
  obtain ⟨same, rfl⟩ := drew
  obtain rfl := Option.some.inj four
  simp only [List.length_cons, List.length_nil, drawn, List.cons.injEq, and_true] at same
  obtain ⟨rfl, rfl, rfl, rfl⟩ := same
  rfl

/-! ## The other hooks -/

/-- The same result, and the same state but for the generator. -/
def passOn (rng : Xoshiro) (ran : HookResult × Sim) : HookResult × Sim :=
  (ran.1, withRng ran.2 rng)

theorem withRng_self (sim : Sim) : withRng sim sim.rng = sim := rfl

theorem withRng_withRng (sim : Sim) (rng rng' : Xoshiro) :
    withRng (withRng sim rng) rng' = withRng sim rng' := rfl

section Fields
variable (sim : Sim) (rng : Xoshiro)

@[simp] theorem objects_withRng : (withRng sim rng).objects = sim.objects := rfl

@[simp] theorem net_withRng : (withRng sim rng).net = sim.net := rfl

@[simp] theorem world_withRng : (withRng sim rng).world = sim.world := rfl

@[simp] theorem memories_withRng : (withRng sim rng).memories = sim.memories := rfl

@[simp] theorem fdTables_withRng : (withRng sim rng).fdTables = sim.fdTables := rfl

@[simp] theorem readMemory_withRng (r : ReplicaId) :
    (withRng sim rng).readMemory r = sim.readMemory r := rfl

@[simp] theorem lookup_withRng (r : ReplicaId) (fd : CInt) :
    (withRng sim rng).lookup r fd = ((sim.lookup r fd).1, withRng (sim.lookup r fd).2 rng) := rfl

end Fields

section Hooks
variable (sim : Sim) (rng : Xoshiro) (r : ReplicaId) (args : Args) (around : Surroundings)

theorem read_withRng : sysRead (withRng sim rng) r args = passOn rng (sysRead sim r args) := by
  simp only [sysRead, lookup_withRng, objects_withRng, passOn]
  split_ifs
  · rfl
  · split <;> rfl

theorem write_withRng : sysWrite (withRng sim rng) r args = passOn rng (sysWrite sim r args) := by
  simp only [sysWrite, lookup_withRng, objects_withRng, passOn]
  split_ifs
  · rfl
  · split <;> rfl

theorem close_withRng : sysClose (withRng sim rng) r args = passOn rng (sysClose sim r args) := by
  simp only [sysClose, fdTables_withRng, passOn]
  split_ifs
  · rfl
  · split <;> rfl

theorem bind_withRng :
    sysBind around (withRng sim rng) r args = passOn rng (sysBind around sim r args) := by
  by_cases real : isSimulated ((args.get 0).setWidth 32) = false
  · simp only [sysBind, if_pos real]
    rfl
  · simp only [sysBind, if_neg real, lookup_withRng]
    split
    · rfl
    · next s _ =>
      by_cases socket : ((sim.lookup r ((args.get 0).setWidth 32)).2.objects s).isSocket = false
      · rw [if_pos socket]
        exact if_pos socket
      · rw [if_neg socket]
        refine (if_neg socket).trans ?_
        rw [readMemory_withRng]
        split
        · rfl
        · next addr _ =>
          by_cases fails : ((sim.lookup r ((args.get 0).setWidth 32)).2.net.bind addr s).1 ≠ 0
          · rw [if_pos fails]
            exact if_pos fails
          · rw [if_neg fails]
            exact if_neg fails

theorem connect_withRng :
    sysConnect around (withRng sim rng) r args = passOn rng (sysConnect around sim r args) := by
  by_cases real : isSimulated ((args.get 0).setWidth 32) = false
  · simp only [sysConnect, if_pos real]
    rfl
  · simp only [sysConnect, if_neg real, lookup_withRng, readMemory_withRng]
    split
    · rfl
    · split
      · rfl
      · next s _ =>
        by_cases socket : ((sim.lookup r ((args.get 0).setWidth 32)).2.objects s).isSocket = false
        · rw [if_pos socket]
          exact if_pos socket
        · rw [if_neg socket]
          refine (if_neg socket).trans ?_
          rw [net_withRng, objects_withRng]
          split
          · rfl
          · split
            · rfl
            · split
              · rfl
              · split_ifs <;> rfl

theorem sendTo_withRng (buffer bytes : U64) (dst : Addr) :
    sendTo around (withRng sim rng) r buffer bytes dst =
      (sendTo around sim r buffer bytes dst).map (passOn rng) := by
  have good : ∀ memory : ChildMemory.Memory, ¬(ChildMemory.readMemory memory buffer
      (List.replicate bytes.toNat 0)).1.toInt < 0 := by
    intro memory
    rw [ChildMemory.readMemory_zero]
    decide
  simp only [sendTo, if_neg (good _)]
  simp only [memories_withRng, world_withRng, objects_withRng]
  split
  · rfl
  · split_ifs
    · rfl
    · split
      · rfl
      · split <;> rfl

theorem sendto_withRng :
    sysSendto around (withRng sim rng) r args =
      (sysSendto around sim r args).map (passOn rng) := by
  simp only [sysSendto, lookup_withRng, objects_withRng, readMemory_withRng]
  split_ifs
  · rfl
  · split
    · rfl
    · split
      · rfl
      · split
        · rfl
        · exact sendTo_withRng _ rng r around _ _ _

theorem recvfrom_withRng :
    sysRecvfrom (withRng sim rng) r args =
      ((sysRecvfrom sim r args).1, withRng (sysRecvfrom sim r args).2 rng) := by
  simp only [sysRecvfrom, lookup_withRng, objects_withRng]
  split_ifs
  · rfl
  · split
    · rfl
    · split <;> rfl

/-- The table has no use for the generator or the objects. -/
theorem install_reset (objects : SocketId → Descriptor) (sock : SocketId) :
    install { sim with rng, objects } r sock =
      ((install sim r sock).1, { (install sim r sock).2 with rng, objects }) := by
  by_cases refused : ((sim.fdTables r).insert (some sock)).1.toInt < 0
  · simp only [install, if_pos refused]
    rfl
  · simp only [install, if_neg refused]
    split <;> rfl

theorem install_withRng (sock : SocketId) :
    install (withRng sim rng) r sock = passOn rng (install sim r sock) := by
  have objects : (install sim r sock).2.objects = sim.objects :=
    congrArg (fun ran => ran.2.objects) (install_reset sim sim.rng r sim.objects sock)
  refine (install_reset sim rng r sim.objects sock).trans ?_
  rw [← objects]
  rfl

theorem socket_withRng {args : Args} (other : ¬AsksDatagram args) :
    sysSocket (withRng sim rng) r args = passOn rng (sysSocket sim r args) := by
  simp only [sysSocket_eq]
  cases known : family ((args.get 0).setWidth 32) with
  | none => rfl
  | some af =>
    by_cases stream : (args.get 1).setWidth 32 = SOCK_STREAM
    · simp only [makeSocket, if_pos stream]
      exact install_withRng (sim.construct (.stream ⟨af, none, false⟩)).2 rng r sim.nextObject
    · have datagram : ¬(args.get 1).setWidth 32 = SOCK_DGRAM := fun type =>
        other ⟨Option.isSome_iff_exists.mpr ⟨af, known⟩, type⟩
      simp only [makeSocket, if_neg stream, if_neg datagram]
      rfl

end Hooks

theorem syscall_withRng {sim : Sim} {rng : Xoshiro} {r : ReplicaId} {args : Args}
    {around : Surroundings} {call : Call} {result : HookResult}
    (silent : ¬Seeds (.call r call args result)) :
    syscall around (withRng sim rng) r args call =
      (syscall around sim r args call).map (passOn rng) := by
  cases call with
  | read => exact congrArg some (read_withRng sim rng r args)
  | write => exact congrArg some (write_withRng sim rng r args)
  | close => exact congrArg some (close_withRng sim rng r args)
  | socket => exact congrArg some (socket_withRng sim rng r silent)
  | sendto => exact sendto_withRng sim rng r args around
  | connect => exact congrArg some (connect_withRng sim rng r args around)
  | bind => exact congrArg some (bind_withRng sim rng r args around)

/-- A step in which no datagram socket is made is the same from every state of the
generator. -/
theorem sysStep_withRng {sim after : Sim} {e : SysEvent} (silent : ¬Seeds e)
    (taken : SysStep sim e after) (rng : Xoshiro) :
    SysStep (withRng sim rng) e (withRng after rng) := by
  cases e with
  | call r call args result =>
    obtain ⟨around, ran⟩ := taken
    exact ⟨around, by rw [syscall_withRng silent, ran]; rfl⟩
  | recvfrom r args p result =>
    obtain ⟨now, s, sock, found, waits, top, ready, done⟩ := taken
    refine ⟨now, s, sock, withRng found rng, ?_, top, ready, ?_⟩
    · rw [recvfrom_withRng, waits]
    · rw [Prod.mk.injEq] at done
      rw [done.1, done.2]
      rfl
  | recvfromFailed r args result =>
    have failing : sysRecvfrom sim r args = (.error result, after) := taken
    change sysRecvfrom (withRng sim rng) r args = _
    rw [recvfrom_withRng, failing]
  | compute r memory =>
    rw [show after = _ from taken]
    rfl

/-- Such a step leaves the generator where it is. -/
theorem rng_of_silent {sim after : Sim} {e : SysEvent} (silent : ¬Seeds e)
    (taken : SysStep sim e after) : after.rng = sim.rng := by
  have alone : ∀ {ran : HookResult × Sim}, ran = passOn sim.rng ran → ran.2.rng = sim.rng := by
    intro ran same
    rw [same]
    rfl
  cases e with
  | call r call args result =>
    obtain ⟨around, ran⟩ := taken
    have again : syscall around (withRng sim sim.rng) r args call = _ := syscall_withRng silent
    rw [withRng_self, ran] at again
    exact alone (Option.some.inj again)
  | recvfrom r args p result =>
    obtain ⟨now, s, sock, found, waits, top, ready, done⟩ := taken
    have again := recvfrom_withRng sim sim.rng r args
    rw [withRng_self, waits] at again
    have same : found = withRng found sim.rng := (Prod.mk.inj again).2
    rw [(Prod.mk.inj done).2, same]
    rfl
  | recvfromFailed r args result =>
    have failing : sysRecvfrom sim r args = (.error result, after) := taken
    have again := recvfrom_withRng sim sim.rng r args
    rw [withRng_self, failing] at again
    rw [show after = withRng after sim.rng from (Prod.mk.inj again).2]
    rfl
  | compute r memory =>
    rw [show after = _ from taken]

/-- Two states after which only the seed of the new object `n` may differ. -/
structure Reseeded (n : SocketId) (mid after : Sim) : Prop where
  same : after = { mid with rng := after.rng, objects := after.objects }
  others : ∀ s, s ≠ n → after.objects s = mid.objects s
  fresh : after.objects n = mid.objects n ∨
    ∃ sock, after.objects n = .datagram sock ∧ sock.inbound.packets = 0

theorem Reseeded.net {n : SocketId} {mid after : Sim} (reseeded : Reseeded n mid after) :
    after.net = mid.net := by
  rw [reseeded.same]

theorem reseeded_refl (n : SocketId) (sim : Sim) : Reseeded n sim sim :=
  ⟨rfl, fun _ _ => rfl, Or.inl rfl⟩

theorem reseeded_rng (n : SocketId) (sim : Sim) (rng : Xoshiro) :
    Reseeded n sim (withRng sim rng) :=
  ⟨rfl, fun _ _ => rfl, Or.inl rfl⟩

/-- Whatever was drawn, the rest of `sys_socket` does what the whole would do now, but for
the seed. -/
theorem finishSocket_reseeded {args : Args} (asks : AsksDatagram args) (sim : Sim)
    (r : ReplicaId) (seed : Xoshiro) :
    ∃ mid, SysStep sim (.call r .socket args (finishSocket sim r args seed).1) mid ∧
      Reseeded sim.nextObject mid (finishSocket sim r args seed).2 := by
  obtain ⟨af, known⟩ := Option.isSome_iff_exists.mp asks.1
  let d : Xoshiro → Descriptor := fun seed => .datagram ⟨af, opened sim.netFaults seed⟩
  let objects : Xoshiro → SocketId → Descriptor := fun seed =>
    update sim.objects sim.nextObject (d seed)
  let bare : Sim := { sim with nextObject := sim.nextObject + 1 }
  have parts : ∀ rng seed, finishSocket (withRng sim rng) r args seed =
      ((install bare r sim.nextObject).1,
        { (install bare r sim.nextObject).2 with rng, objects := objects seed }) := by
    intro rng seed
    simp only [finishSocket, known]
    exact install_reset bare rng r (objects seed) sim.nextObject
  have now := parts sim.rng seed
  have whole := (sysSocket_seeded asks sim r).trans (parts _ _)
  rw [withRng_self] at now
  rw [now]
  let around : Surroundings := ⟨⟨fun _ rng => (false, rng), fun _ => 0⟩, 0, 0, fun _ => 0⟩
  refine ⟨_, ⟨around, congrArg some whole⟩, rfl, fun s other => ?_,
    Or.inr ⟨⟨af, opened sim.netFaults seed⟩, update_self _ _ _, rfl⟩⟩
  exact (update_of_ne other _ _).trans (update_of_ne other _ _).symm

end SplitSeeding
