import Redstone.SocketLifetimes
import Redstone.FailedCalls

/-!
# The numbers of one program

The descriptor table of a replica behaves like a table of its own: the numbers that a
program is given and those that are open depend on its own calls only, whatever the seed,
the faults and the programs beside it do.
-/

namespace OwnNumbers

open MachineWords SocketAddr Network FdTable ParseAddr
open SocketSeeds (ReplicaId family SOCK_STREAM SOCK_DGRAM)
open TraceLoop (Args HookResult)
open Syscalls HookOutcomes HookEffects StepRuns Function

universe u v

/-! ## Tables of one shape -/

/-- The same numbers are known, open and free. -/
structure SameShape {δ : Type u} {ε : Type v} (t : Table δ) (t' : Table ε) : Prop where
  keys : t.table.keys = t'.table.keys
  unused : t.unused = t'.unused
  live : ∀ fd, (t.live fd).isSome = (t'.live fd).isSome

namespace SameShape

variable {δ : Type u} {ε : Type v} {t : Table δ} {t' : Table ε}

theorem get (same : SameShape t t') (fd : CInt) : SameShape (t.get fd).2 (t'.get fd).2 := by
  obtain ⟨-, live, unused, keys⟩ := t.get_spec fd
  obtain ⟨-, live', unused', keys'⟩ := t'.get_spec fd
  refine ⟨?_, ?_, ?_⟩
  · rw [keys, keys', same.keys]
  · rw [unused, unused', same.unused]
  · rw [live, live']
    exact same.live

theorem insert_table {fd : CInt} {rest : List CInt} (same : SameShape t t') (d : δ) (d' : ε) :
    SameShape (Table.mk (t.table.insert fd (some d)) rest)
      (Table.mk (t'.table.insert fd (some d')) rest) := by
  refine ⟨?_, rfl, ?_⟩
  · rw [Table.keys_insert, Table.keys_insert, same.keys]
  · intro a
    by_cases here : a = fd
    · rw [here, Table.live_insert_self, Table.live_insert_self]
      rfl
    · rw [Table.live_insert_ne (v := t.unused) here, Table.live_insert_ne (v := t'.unused) here]
      exact same.live a

theorem insert (same : SameShape t t') (d : δ) (d' : ε) :
    (t.insert (some d)).1 = (t'.insert (some d')).1 ∧
      SameShape (t.insert (some d)).2 (t'.insert (some d')).2 := by
  have size : t'.size = t.size := by rw [Table.size, Table.size, same.keys]
  simp only [Table.insert, ← same.unused, size]
  cases t.unused.getLast? with
  | some fd => exact ⟨rfl, same.insert_table d d'⟩
  | none =>
    by_cases full : capacity ≤ t.size
    · simp only [if_pos full]
      exact ⟨trivial, same⟩
    · simp only [if_neg full]
      exact ⟨trivial, same.insert_table d d'⟩

theorem close (same : SameShape t t') (fd : CInt) :
    (t.close fd).1 = (t'.close fd).1 ∧ SameShape (t.close fd).2 (t'.close fd).2 := by
  have open' := same.live fd
  cases used : t.live fd with
  | none =>
    rw [used, Option.isSome_none, eq_comm, Option.isSome_eq_false_iff, Option.isNone_iff_eq_none]
      at open'
    simp only [Table.close, used, open']
    exact ⟨trivial, same⟩
  | some d =>
    rw [used, Option.isSome_some, eq_comm, Option.isSome_iff_exists] at open'
    obtain ⟨d', used'⟩ := open'
    simp only [Table.close, used, used']
    refine ⟨trivial, ?_, ?_, ?_⟩
    · rw [Finmap.keys_erase, Finmap.keys_erase, same.keys]
    · rw [same.unused]
    · intro a
      by_cases here : a = fd
      · rw [here, Table.live_erase_self, Table.live_erase_self]
        rfl
      · rw [Table.live_erase_ne (v := t.unused) here, Table.live_erase_ne (v := t'.unused) here]
        exact same.live a

end SameShape

/-! ## What a call does to the table of its caller -/

/-- A call leaves the tables, or looks `fd` up, and then a closed `fd` is an error. -/
inductive Asked (sim : Sim) (r : ReplicaId) (fd : CInt) (result : HookResult) (after : Sim) :
    Prop where
  | unasked (other : result ≠ failed EBADF) (tables : after.fdTables = sim.fdTables)
  | asked (tables : after.fdTables = (sim.lookup r fd).2.fdTables)
      (closed : (sim.fdTables r).live fd = none → result = failed EBADF)

theorem asked_of_outcome {sim after : Sim} {r : ReplicaId} {fd : CInt} {parsed : Prop}
    {result : HookResult} (outcome : Outcome sim r fd parsed result after)
    (closed : parsed → result ≠ .passthrough → (sim.fdTables r).live fd = none →
      result = failed EBADF)
    (unparsed : ¬parsed → result ≠ failed EBADF ∧ after.fdTables = sim.fdTables) :
    Asked sim r fd result after := by
  by_cases good : parsed
  · cases outcome with
    | passed => exact .unasked (by decide) rfl
    | unparsed v bad => exact absurd good bad
    | refused v _ looked => exact .asked looked.tables (closed good (by simp))
    | served v nonneg tables next owners => exact .asked tables (closed good (by simp))
  · exact .unasked (unparsed good).1 (unparsed good).2

theorem scanPath_error (sunPath : Nat → Byte) (destLen left : Nat) (path : List Byte) {e : Nat}
    (bad : scanPath sunPath destLen left path = .error e) : e = EINVAL := by
  induction left generalizing path with
  | zero => cases bad
  | succ left ih =>
    simp only [scanPath] at bad
    split at bad
    · cases bad
    · split at bad
      · exact (Except.error.inj bad).symm
      · exact ih _ bad

theorem parseAddr_error {readMemory : ReadMemory} {stack : Stack} {destAddr : U64}
    {destLen e : Nat} (bad : parseAddr readMemory stack destAddr destLen = .error e) :
    failed e ≠ failed EBADF := by
  have known : e = EINVAL ∨ e = EFAULT ∨ e = ENOTSUP := by
    simp only [parseAddr] at bad
    split at bad
    · exact Or.inl (Except.error.inj bad).symm
    · split at bad
      · exact Or.inr (Or.inl (Except.error.inj bad).symm)
      · simp only [addrOf] at bad
        split at bad
        · cases bad
        · split at bad
          · cases scanned : scanPath (fun i => fill stack
              (readMemory destAddr (List.replicate destLen 0)).2 (sunPathOffset + i)) destLen
              (destLen - sunPathOffset) [] with
            | ok path =>
              rw [scanned] at bad
              cases bad
            | error e' =>
              rw [scanned] at bad
              obtain rfl := Except.error.inj bad
              exact Or.inl (scanPath_error _ _ _ _ scanned)
          · exact Or.inr (Or.inr (Except.error.inj bad).symm)
  rcases known with rfl | rfl | rfl <;> decide

theorem read_asked (sim : Sim) (r : ReplicaId) (args : Args) :
    Asked sim r ((args.get 0).setWidth 32) (sysRead sim r args).1 (sysRead sim r args).2 := by
  refine asked_of_outcome (sysRead_outcome sim r args) ?_ fun bad => absurd trivial bad
  intro _ simulated closed
  rw [← lookup_fst] at closed
  by_cases real : isSimulated ((args.get 0).setWidth 32) = false
  · simp only [sysRead, if_pos real, ne_eq, not_true_eq_false] at simulated
  · simp only [sysRead, if_neg real, closed]

theorem write_asked (sim : Sim) (r : ReplicaId) (args : Args) :
    Asked sim r ((args.get 0).setWidth 32) (sysWrite sim r args).1 (sysWrite sim r args).2 := by
  refine asked_of_outcome (sysWrite_outcome sim r args) ?_ fun bad => absurd trivial bad
  intro _ simulated closed
  rw [← lookup_fst] at closed
  by_cases real : isSimulated ((args.get 0).setWidth 32) = false
  · simp only [sysWrite, if_pos real, ne_eq, not_true_eq_false] at simulated
  · simp only [sysWrite, if_neg real, closed]

theorem bind_asked (around : Surroundings) (sim : Sim) (r : ReplicaId) (args : Args) :
    Asked sim r ((args.get 0).setWidth 32) (sysBind around sim r args).1
      (sysBind around sim r args).2 := by
  refine asked_of_outcome (sysBind_outcome around sim r args) ?_ fun bad => absurd trivial bad
  intro _ simulated closed
  rw [← lookup_fst] at closed
  by_cases real : isSimulated ((args.get 0).setWidth 32) = false
  · simp only [sysBind, if_pos real, ne_eq, not_true_eq_false] at simulated
  · simp only [sysBind, if_neg real, closed]

theorem connect_asked (around : Surroundings) (sim : Sim) (r : ReplicaId) (args : Args) :
    Asked sim r ((args.get 0).setWidth 32) (sysConnect around sim r args).1
      (sysConnect around sim r args).2 := by
  refine asked_of_outcome (sysConnect_outcome around sim r args) ?_ ?_
  · rintro ⟨addr, parsed⟩ simulated closed
    rw [← lookup_fst] at closed
    by_cases real : isSimulated ((args.get 0).setWidth 32) = false
    · simp only [sysConnect, if_pos real, ne_eq, not_true_eq_false] at simulated
    · simp only [sysConnect, if_neg real, parsed, closed]
  · intro bad
    by_cases real : isSimulated ((args.get 0).setWidth 32) = false
    · simp only [sysConnect, if_pos real]
      exact ⟨by decide, trivial⟩
    · cases parsed : parseAddr (sim.readMemory r) around.stack (args.get 1)
        (args.get 2).toNat with
      | ok addr => exact absurd ⟨addr, parsed⟩ bad
      | error e =>
        simp only [sysConnect, if_neg real, parsed]
        exact ⟨parseAddr_error parsed, trivial⟩

theorem sendto_asked {around : Surroundings} {sim after : Sim} {r : ReplicaId} {args : Args}
    {result : HookResult} (returned : sysSendto around sim r args = some (result, after)) :
    Asked sim r ((args.get 0).setWidth 32) result after := by
  refine asked_of_outcome (sysSendto_outcome returned) ?_ ?_
  · rintro ⟨addr, parsed⟩ simulated closed
    rw [← lookup_fst] at closed
    by_cases real : isSimulated ((args.get 0).setWidth 32) = false
    · simp only [sysSendto, if_pos real] at returned
      exact absurd (Prod.mk.inj (Option.some.inj returned)).1.symm simulated
    · simp only [sysSendto, if_neg real, parsed, closed] at returned
      exact (Prod.mk.inj (Option.some.inj returned)).1.symm
  · intro bad
    by_cases real : isSimulated ((args.get 0).setWidth 32) = false
    · simp only [sysSendto, if_pos real] at returned
      obtain ⟨rfl, rfl⟩ := Prod.mk.inj (Option.some.inj returned)
      exact ⟨by decide, rfl⟩
    · cases parsed : parseAddr (sim.readMemory r) around.stack (args.get 4)
        (args.get 5).toNat with
      | ok addr => exact absurd ⟨addr, parsed⟩ bad
      | error e =>
        simp only [sysSendto, if_neg real, parsed] at returned
        obtain ⟨rfl, rfl⟩ := Prod.mk.inj (Option.some.inj returned)
        exact ⟨parseAddr_error parsed, rfl⟩

theorem recvfromFailed_asked {sim after : Sim} {r : ReplicaId} {args : Args}
    {result : HookResult} (failing : sysRecvfrom sim r args = (.error result, after)) :
    Asked sim r ((args.get 0).setWidth 32) result after := by
  by_cases real : isSimulated ((args.get 0).setWidth 32) = false
  · simp only [sysRecvfrom, if_pos real] at failing
    obtain ⟨same, rfl⟩ := Prod.mk.inj failing
    rw [← Except.error.inj same]
    exact .unasked (by decide) rfl
  · have live := lookup_fst sim r ((args.get 0).setWidth 32)
    have looked := lookedUp sim r ((args.get 0).setWidth 32)
    simp only [sysRecvfrom, if_neg real] at failing
    generalize found : sim.lookup r ((args.get 0).setWidth 32) = pair at live looked failing
    obtain ⟨fd, looked'⟩ := pair
    cases fd with
    | none =>
      obtain ⟨same, rfl⟩ := Prod.mk.inj failing
      exact .asked (by rw [found]) fun _ => (Except.error.inj same).symm
    | some s =>
      have tables : after.fdTables = looked'.fdTables := by
        dsimp only at failing
        split at failing
        · rw [(Prod.mk.inj failing).2]
        · cases failing
      refine .asked (by rw [found, tables]) fun closed => ?_
      rw [closed] at live
      cases live

/-! ## A table of its own -/

/-- What a program asks of its table: a number, for a family and a type that are known or
not, to close a number, or for a number that is closed. -/
inductive Request where
  | opens (known : Bool)
  | closes (fd : CInt)
  | misses (fd : CInt)
  deriving DecidableEq

/-- A table without anything around it. -/
def serve (t : Table Unit) : Request → HookResult × Table Unit
  | .opens false => (failed EINVAL, t)
  | .opens true =>
    let (fd, inserted) := t.insert (some ())
    (if fd.toInt < 0 then failed EMFILE else handledInt fd, inserted)
  | .closes fd =>
    if isSimulated fd = false then (.passthrough, t)
    else
      let (rc, closed) := t.close fd
      (handledInt rc, closed)
  | .misses fd => (failed EBADF, (t.get fd).2)

/-- `sys_socket` knows the family and the type. -/
def known (args : Args) : Bool :=
  (family ((args.get 0).setWidth 32)).isSome &&
    ((args.get 1).setWidth 32 = SOCK_STREAM || (args.get 1).setWidth 32 = SOCK_DGRAM)

/-- What a step of the system asks, and what it answers, if `r` makes it. -/
def requestOf : SysEvent → Option (Request × HookResult)
  | .call _ .socket args result => some (.opens (known args), result)
  | .call _ .close args result => some (.closes ((args.get 0).setWidth 32), result)
  | .call _ _ args result =>
    if result = failed EBADF then some (.misses ((args.get 0).setWidth 32), result) else none
  | .recvfromFailed _ args result =>
    if result = failed EBADF then some (.misses ((args.get 0).setWidth 32), result) else none
  | .recvfrom .. => none
  | .compute .. => none

def exchange (r : ReplicaId) (e : SysEvent) : Option (Request × HookResult) :=
  if caller e = r then requestOf e else none

/-- A step of the system is a step of the table or leaves it. -/
inductive Exchanges (t' : Table Unit) (table : Table SocketId) :
    Option (Request × HookResult) → Prop where
  | silent (same : SameShape table t') : Exchanges t' table none
  | served {q : Request} (same : SameShape table (serve t' q).2) :
      Exchanges t' table (some (q, (serve t' q).1))

theorem get_of_live {t : Table SocketId} {fd : CInt} (found : t.live fd ≠ none) :
    (t.get fd).2 = t := by
  cases entry : t.table.lookup fd with
  | some slot => simp only [Table.get, entry]
  | none =>
    rw [Table.live, entry] at found
    exact absurd rfl found

theorem Asked.exchanges {sim after : Sim} {r : ReplicaId} {fd : CInt} {result : HookResult}
    (asked : Asked sim r fd result after) {t' : Table Unit} (same : SameShape (sim.fdTables r) t') :
    Exchanges t' (after.fdTables r)
      (if result = failed EBADF then some (.misses fd, result) else none) := by
  have looked : (sim.lookup r fd).2.fdTables r = ((sim.fdTables r).get fd).2 :=
    update_self r _ sim.fdTables
  cases asked with
  | unasked other tables =>
    rw [if_neg other, tables]
    exact .silent same
  | asked tables closed =>
    rw [tables, looked]
    by_cases bad : result = failed EBADF
    · rw [if_pos bad, bad]
      exact .served (q := .misses fd) (same.get fd)
    · rw [if_neg bad]
      rw [get_of_live fun missing => bad (closed missing)]
      exact .silent same

theorem Exchanges.of_serve {t' : Table Unit} {table : Table SocketId} {q : Request}
    {result : HookResult} (answer : result = (serve t' q).1)
    (same : SameShape table (serve t' q).2) : Exchanges t' table (some (q, result)) := by
  rw [answer]
  exact .served same

theorem makeSocket_known {sim : Sim} {af : SocketSeeds.AddressFamily} {args : Args}
    (family' : family ((args.get 0).setWidth 32) = some af) :
    (makeSocket sim af ((args.get 1).setWidth 32)).isSome = known args := by
  have apart : SOCK_DGRAM ≠ SOCK_STREAM := by decide
  simp only [makeSocket, known, family', Option.isSome_some, Bool.true_and]
  by_cases stream : (args.get 1).setWidth 32 = SOCK_STREAM
  · simp [stream]
  · by_cases datagram : (args.get 1).setWidth 32 = SOCK_DGRAM
    · simp [datagram, apart]
    · simp [stream, datagram]

theorem socket_exchanges {sim after : Sim} {r : ReplicaId} {args : Args} {result : HookResult}
    (ran : sysSocket sim r args = (result, after)) {t' : Table Unit}
    (same : SameShape (sim.fdTables r) t') :
    Exchanges t' (after.fdTables r) (some (.opens (known args), result)) := by
  have refuses : known args = false → sysSocket sim r args = (failed EINVAL, sim) →
      Exchanges t' (after.fdTables r) (some (.opens (known args), result)) := by
    intro unknown ended
    obtain ⟨rfl, rfl⟩ := Prod.mk.inj (ran.symm.trans ended)
    rw [unknown]
    exact .of_serve rfl same
  cases family' : family ((args.get 0).setWidth 32) with
  | none =>
    refine refuses ?_ ?_
    · simp only [known, family', Option.isSome_none, Bool.false_and]
    · simp only [sysSocket, family']
  | some af =>
    have known' : (makeSocket sim af ((args.get 1).setWidth 32)).isSome = known args :=
      makeSocket_known family'
    cases making : makeSocket sim af ((args.get 1).setWidth 32) with
    | none =>
      refine refuses ?_ ?_
      · rw [← known', making]
        rfl
      · simp only [sysSocket, family', making]
    | some pair =>
      obtain ⟨sock, made⟩ := pair
      have tables : made.fdTables = sim.fdTables := (makeSocket_made making).2.2.1
      obtain ⟨number, inserted⟩ := same.insert sock ()
      have here : update sim.fdTables r ((sim.fdTables r).insert (some sock)).2 r =
          ((sim.fdTables r).insert (some sock)).2 := update_self r _ sim.fdTables
      rw [← known', making, Option.isSome_some]
      simp only [sysSocket, family', making, tables] at ran
      refine .of_serve ?_ ?_
      · simp only [serve, ← number]
        split at ran
        · rename_i negative
          rw [if_pos negative]
          exact (Prod.mk.inj ran).1.symm
        · rename_i nonneg
          rw [if_neg nonneg]
          split at ran <;> exact (Prod.mk.inj ran).1.symm
      · have table : after.fdTables r = ((sim.fdTables r).insert (some sock)).2 := by
          split at ran
          · rw [← (Prod.mk.inj ran).2]
            exact here
          · split at ran
            · rw [← (Prod.mk.inj ran).2]
              exact here
            · rw [← (Prod.mk.inj ran).2]
              exact here
        rw [table]
        exact inserted

theorem close_exchanges (sim : Sim) (r : ReplicaId) (args : Args) {t' : Table Unit}
    (same : SameShape (sim.fdTables r) t') :
    Exchanges t' ((sysClose sim r args).2.fdTables r)
      (some (.closes ((args.get 0).setWidth 32), (sysClose sim r args).1)) := by
  by_cases real : isSimulated ((args.get 0).setWidth 32) = false
  · refine .of_serve ?_ ?_
    · simp only [sysClose, serve, if_pos real]
    · simp only [sysClose, serve, if_pos real]
      exact same
  · obtain ⟨code, closed⟩ := same.close ((args.get 0).setWidth 32)
    have here : update sim.fdTables r
        ((sim.fdTables r).close ((args.get 0).setWidth 32)).2 r =
          ((sim.fdTables r).close ((args.get 0).setWidth 32)).2 := update_self r _ sim.fdTables
    simp only [sysClose, if_neg real]
    cases (sim.fdTables r).live ((args.get 0).setWidth 32) with
    | none =>
      refine .of_serve ?_ ?_
      · simp only [serve, if_neg real, code]
      · simp only [serve, if_neg real]
        rw [here]
        exact closed
    | some s =>
      refine .of_serve ?_ ?_
      · simp only [serve, if_neg real, code]
      · simp only [serve, if_neg real, Sim.release]
        rw [here]
        exact closed

/-! ## Every run -/

/-- A step leaves the tables of all other replicas. -/
theorem tables_step {admits : FaultSampling.Host → Prop} {sim after : Sim} {e : SysEvent}
    (effect : Effect admits sim e after) {r : ReplicaId} (other : r ≠ caller e) :
    after.fdTables r = sim.fdTables r := by
  have updated : ∀ {table : Table SocketId}, after.fdTables = update sim.fdTables (caller e) table →
      after.fdTables r = sim.fdTables r := by
    intro table tables
    rw [tables, update_of_ne other]
  cases effect with
  | idle same => rw [same]
  | looked looked => exact updated looked.looked.tables
  | closed opened same => exact updated (by rw [same]; rfl)
  | unopened new same =>
    rw [same]
    rfl
  | made new inserted nonneg same => exact updated (by rw [same])
  | bound event opened socket parsed free looked same =>
    exact updated ((congrArg Sim.fdTables same).trans looked.looked.tables)
  | connected event parsed ends quiet family looked same =>
    exact updated ((congrArg Sim.fdTables same).trans looked.looked.tables)
  | sent admitted event opened datagram parsed owner target drawn looked same =>
    exact updated ((congrArg Sim.fdTables same).trans looked.looked.tables)
  | received event opened datagram top ready looked same =>
    exact updated ((congrArg Sim.fdTables same).trans looked.looked.tables)
  | computed same =>
    rw [same]

theorem recvfrom_exchanges {now : I64} {sim after : Sim} {r : ReplicaId} {args : Args}
    {p : DatagramPipe.Packet} {result : HookResult}
    (received : Receives now sim r args p result after) : after.fdTables r = sim.fdTables r := by
  obtain ⟨s, sock, found, waits, -, -, done⟩ := received
  obtain ⟨opened, -, rfl⟩ := recvfrom_opened waits
  obtain ⟨-, rfl⟩ := Prod.mk.inj done
  have live : (sim.fdTables r).live ((args.get 0).setWidth 32) ≠ none := by
    rw [opened]
    exact Option.some_ne_none s
  exact (update_self r _ sim.fdTables).trans (get_of_live live)

theorem exchanges_step {sim after : Sim} {e : SysEvent} (wf : WellFormed sim)
    (taken : SysStep sim e after) {r : ReplicaId} {t' : Table Unit}
    (same : SameShape (sim.fdTables r) t') :
    Exchanges t' (after.fdTables r) (exchange r e) := by
  by_cases own : caller e = r
  · rw [exchange, if_pos own]
    subst own
    cases e with
    | call r call args result =>
      obtain ⟨around, ran⟩ := taken
      cases call with
      | read =>
        obtain ⟨rfl, rfl⟩ := Prod.mk.inj (Option.some.inj ran)
        exact (read_asked sim r args).exchanges same
      | write =>
        obtain ⟨rfl, rfl⟩ := Prod.mk.inj (Option.some.inj ran)
        exact (write_asked sim r args).exchanges same
      | close =>
        obtain ⟨rfl, rfl⟩ := Prod.mk.inj (Option.some.inj ran)
        exact close_exchanges sim r args same
      | socket => exact socket_exchanges (Option.some.inj ran) same
      | sendto => exact (sendto_asked ran).exchanges same
      | connect =>
        obtain ⟨rfl, rfl⟩ := Prod.mk.inj (Option.some.inj ran)
        exact (connect_asked around sim r args).exchanges same
      | bind =>
        obtain ⟨rfl, rfl⟩ := Prod.mk.inj (Option.some.inj ran)
        exact (bind_asked around sim r args).exchanges same
    | recvfrom r args p result =>
      obtain ⟨now, received⟩ := taken
      rw [caller, recvfrom_exchanges received]
      exact .silent same
    | recvfromFailed r args result => exact (recvfromFailed_asked taken).exchanges same
    | compute r memory =>
      rw [show after = _ from taken]
      exact .silent same
  · rw [exchange, if_neg own, tables_step (effect_of_step wf (sysStep_iff.mp taken)) (Ne.symm own)]
    exact .silent same

/-- What `r` asked and was answered, in order. -/
def exchanges (r : ReplicaId) (past : List SysEvent) : List (Request × HookResult) :=
  past.filterMap (exchange r)

section Runs
variable {seed seed' : U64} {netFaults netFaults' : FaultSampling.FaultOptions}
variable {memories memories' : ReplicaId → ChildMemory.Memory}

/-- The answers are those of a table that is asked nothing else. -/
theorem own_table {past : List SysEvent} {sim : Sim} (r : ReplicaId)
    (path : Path SysStep (Sim.start seed netFaults memories) past sim) :
    SameShape (sim.fdTables r) (run serve FdTable.empty ((exchanges r past).map Prod.fst)) ∧
      (exchanges r past).map Prod.snd =
        outputs serve FdTable.empty ((exchanges r past).map Prod.fst) := by
  induction path with
  | start => exact ⟨⟨rfl, rfl, fun _ => rfl⟩, rfl⟩
  | @snoc past t u e before last ih =>
    obtain ⟨same, answers⟩ := ih
    have wf := wellFormed_path (wellFormed_start seed netFaults memories) before
    have step := exchanges_step wf last same
    rw [exchanges, filterMap_snoc]
    generalize exchange r e = x at step ⊢
    cases step with
    | silent same =>
      rw [Option.toList_none, List.append_nil]
      exact ⟨same, answers⟩
    | served same =>
      rw [Option.toList_some, List.map_append, List.map_append, run_append, outputs_append]
      exact ⟨same, congrArg (· ++ _) answers⟩

/-- Two runs of two systems in which a program asks its table the same get it the same
numbers and errors and leave it the same open numbers, whatever else differs. -/
theorem own_numbers {past past' : List SysEvent} {sim sim' : Sim} {r : ReplicaId}
    (path : Path SysStep (Sim.start seed netFaults memories) past sim)
    (path' : Path SysStep (Sim.start seed' netFaults' memories') past' sim')
    (same : (exchanges r past).map Prod.fst = (exchanges r past').map Prod.fst) :
    exchanges r past = exchanges r past' ∧
      ∀ fd, ((sim.fdTables r).live fd).isSome = ((sim'.fdTables r).live fd).isSome := by
  obtain ⟨shape, answers⟩ := own_table r path
  obtain ⟨shape', answers'⟩ := own_table r path'
  rw [same] at shape answers
  refine ⟨?_, fun fd => (shape.live fd).trans (shape'.live fd).symm⟩
  have both : ∀ l : List (Request × HookResult), (l.map Prod.fst).zip (l.map Prod.snd) = l := by
    intro l
    have whole := List.zip_unzip l
    rwa [List.unzip_eq_map] at whole
  calc exchanges r past
      = ((exchanges r past).map Prod.fst).zip ((exchanges r past).map Prod.snd) := (both _).symm
    _ = ((exchanges r past').map Prod.fst).zip ((exchanges r past').map Prod.snd) := by
        rw [same, answers.trans answers'.symm]
    _ = exchanges r past' := both _

end Runs

/-- A program opens a socket, alone or beside one that was there first. -/
theorem own_numbers_beside :
    let alone := Sim.start 7 FaultSampling.defaultFaults fun _ _ => none
    let beside := Sim.start 8 FaultSampling.defaultFaults fun _ _ => none
    let first := (sysSocket beside 4 #v[2, 2, 0, 0, 0, 0]).2
    ∀ fd, (((sysSocket alone 3 #v[2, 2, 0, 0, 0, 0]).2.fdTables 3).live fd).isSome =
      (((sysSocket first 3 #v[2, 2, 0, 0, 0, 0]).2.fdTables 3).live fd).isSome := by
  intro alone beside first
  let around : Surroundings := ⟨⟨fun _ rng => (false, rng), fun _ => 0⟩, 0, 0, fun _ => 0⟩
  have path : Path SysStep alone
      [.call 3 .socket #v[2, 2, 0, 0, 0, 0] (sysSocket alone 3 #v[2, 2, 0, 0, 0, 0]).1] _ :=
    Path.start.snoc ⟨around, rfl⟩
  have path' : Path SysStep beside
      [.call 4 .socket #v[2, 2, 0, 0, 0, 0] (sysSocket beside 4 #v[2, 2, 0, 0, 0, 0]).1,
        .call 3 .socket #v[2, 2, 0, 0, 0, 0] (sysSocket first 3 #v[2, 2, 0, 0, 0, 0]).1] _ :=
    (Path.start.snoc ⟨around, rfl⟩).snoc ⟨around, rfl⟩
  exact (own_numbers (r := 3) path path' rfl).2

end OwnNumbers
