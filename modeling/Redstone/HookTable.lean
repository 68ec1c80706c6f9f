import Redstone.SparseArray
import Redstone.TraceLoop

/-!
# The hook table

`build_hook_table` turns a list of registrations into a table that is indexed by the
number of a call. It means to size the table by the largest number, but takes the maximum
of the two iterators instead, compared by what they point at: the first registration and
whatever lies behind the last one. The loop that fills the table grows it where needed.
-/

namespace HookTable

open MachineWords SparseArray
open TraceLoop (SYS_exit SYS_exit_group)

universe u
variable {H : Type u}

/-- `std::vector<hook>::max_size()`. -/
def maxSize : Nat := 0xfffffffffffffff

/-- The vector after `resize(n)`, none if that throws. `granted` says which growths the
memory allows, by the old and the new size. -/
def resizeTo (granted : Nat → Nat → Bool) (n : Nat) (table : List (Option H)) :
    Option (List (Option H)) :=
  if n ≤ table.length ∨ n ≤ maxSize ∧ granted table.length n then some (resize none n table)
  else none

/-- The body of the loop. `at` throws outside the table, which `sys + 1` wrapping to zero
makes possible. -/
def register (granted : Nat → Nat → Bool) (table : List (Option H)) (sys : U64) (hook : H) :
    Option (List (Option H)) :=
  let grown := if table.length ≤ sys.toNat then resizeTo granted (sys + 1).toNat table
    else some table
  grown.bind fun table =>
    if sys.toNat < table.length then some (table.set sys.toNat (some hook)) else none

/-- The indices of `map` that were read, in order, and the table, none after an exception. -/
structure Construction (H : Type u) where
  reads : List Nat
  table : Option (List (Option H))

/-- The loop, from the element with index `i` on. -/
def fill (granted : Nat → Nat → Bool) :
    (i : Nat) → List (U64 × H) → List (Option H) → Construction H
  | _, [], table => ⟨[], some table⟩
  | i, (sys, hook) :: rest, table =>
    match register granted table sys hook with
    | none => ⟨[i], none⟩
    | some table =>
      let c := fill granted (i + 1) rest table
      ⟨i :: c.reads, c.table⟩

/-- What `->first` reads at an index; the memory behind the list holds `beyond`. -/
def sysnoAt (map : List (U64 × H)) (beyond : U64) (i : Nat) : U64 :=
  match map[i]? with
  | some (sys, _) => sys
  | none => beyond

/-- `std::max` of `map.begin()` and `map.end()`, which reads both. -/
def maxIterator (map : List (U64 × H)) (beyond : U64) : Nat :=
  if sysnoAt map beyond 0 < sysnoAt map beyond map.length then map.length else 0

def buildHookTable (granted : Nat → Nat → Bool) (map : List (U64 × H)) (beyond : U64) :
    Construction H :=
  let it := maxIterator map beyond
  let maxSysno := sysnoAt map beyond it
  let reads := [0, map.length, it]
  match resizeTo granted (maxSysno + 1).toNat [] with
  | none => ⟨reads, none⟩
  | some table =>
    let c := fill granted 0 map table
    ⟨reads ++ c.reads, c.table⟩

/-- The lookup of `get_hook`. -/
def getHook (table : List (Option H)) (sys : U64) : Option H :=
  if sys.toNat < table.length then table.getD sys.toNat none else none

/-- The functions in the table. -/
inductive Hook where
  | sysWrite
  | sysRead
  | sysClose
  | sysSocket
  | sysSendto
  | sysRecvfrom
  | sysConnect
  | sysBind
  | sysClockGettime
  | sysClockNanosleep
  | explicitPassthrough
  deriving DecidableEq

def SYS_read : U64 := 0
def SYS_write : U64 := 1
def SYS_close : U64 := 3
def SYS_mmap : U64 := 9
def SYS_mprotect : U64 := 10
def SYS_munmap : U64 := 11
def SYS_brk : U64 := 12
def SYS_rt_sigaction : U64 := 13
def SYS_rt_sigprocmask : U64 := 14
def SYS_socket : U64 := 41
def SYS_connect : U64 := 42
def SYS_sendto : U64 := 44
def SYS_recvfrom : U64 := 45
def SYS_bind : U64 := 49
def SYS_arch_prctl : U64 := 158
def SYS_set_tid_address : U64 := 218
def SYS_clock_gettime : U64 := 228
def SYS_clock_nanosleep : U64 := 230
def SYS_set_robust_list : U64 := 273
def SYS_prlimit64 : U64 := 302

def passthroughs : List U64 :=
  [SYS_exit, SYS_exit_group, SYS_mmap, SYS_mprotect, SYS_munmap, SYS_rt_sigaction,
    SYS_set_tid_address, SYS_set_robust_list, SYS_rt_sigprocmask, SYS_prlimit64, SYS_brk,
    SYS_arch_prctl]

/-- The list of `build_hook_table`. -/
def hookMap : List (U64 × Hook) :=
  [(SYS_write, .sysWrite), (SYS_read, .sysRead), (SYS_close, .sysClose),
    (SYS_socket, .sysSocket), (SYS_sendto, .sysSendto), (SYS_recvfrom, .sysRecvfrom),
    (SYS_connect, .sysConnect), (SYS_bind, .sysBind),
    (SYS_clock_gettime, .sysClockGettime), (SYS_clock_nanosleep, .sysClockNanosleep)] ++
    passthroughs.map fun passthrough => (passthrough, .explicitPassthrough)

/-! ## What the table should be -/

def maximum : List (U64 × H) → Nat
  | [] => 0
  | (sys, _) :: rest => max sys.toNat (maximum rest)

/-- The construction reads elements of the list only, and its table is the list. -/
structure Exact (map : List (U64 × H)) (c : Construction H) : Prop where
  reads : ∀ i ∈ c.reads, i < map.length
  built : ∃ table, c.table = some table ∧ table.length = maximum map + 1 ∧
    ∀ sys, getHook table sys = map.lookup sys

theorem getHook_eq (table : List (Option H)) (sys : U64) :
    getHook table sys = table.getD sys.toNat none := by
  by_cases inside : sys.toNat < table.length
  · rw [getHook, if_pos inside]
  · rw [getHook, if_neg inside, List.getD_eq_default _ _ (Nat.le_of_not_lt inside)]

theorem getD_resize {n : Nat} {table : List (Option H)} (grows : table.length ≤ n) (i : Nat) :
    (resize none n table).getD i none = table.getD i none := by
  by_cases inside : i < n
  · rw [List.getD_eq_getElem?_getD, getElem?_resize none table inside, Option.getD_some]
  · rw [List.getD_eq_default _ _ (by rw [length_resize]; omega),
      List.getD_eq_default _ _ (by omega)]

theorem resizeTo_some {granted : Nat → Nat → Bool} {n : Nat} {table after : List (Option H)}
    (resized : resizeTo granted n table = some after) : after = resize none n table := by
  rw [resizeTo] at resized
  split at resized
  · exact (Option.some.inj resized).symm
  · cases resized

theorem getD_set (table : List (Option H)) {i : Nat} (inside : i < table.length)
    (hook : Option H) (j : Nat) :
    (table.set i hook).getD j none = if j = i then hook else table.getD j none := by
  rw [List.getD_eq_getElem?_getD, List.getD_eq_getElem?_getD, List.getElem?_set, if_pos inside]
  by_cases same : i = j
  · rw [if_pos same, if_pos same.symm, Option.getD_some]
  · rw [if_neg same, if_neg (Ne.symm same)]

/-- One registration changes the lookup of its own number, in a table that covers it. -/
theorem register_some {granted : Nat → Nat → Bool} {table after : List (Option H)} {sys : U64}
    {hook : H} (registered : register granted table sys hook = some after) :
    after.length = max table.length (sys.toNat + 1) ∧
      ∀ s, getHook after s = if s = sys then some hook else getHook table s := by
  have stored : ∀ {grown : List (Option H)}, sys.toNat < grown.length →
      (∀ s : U64, grown.getD s.toNat none = getHook table s) → ∀ s,
      getHook (grown.set sys.toNat (some hook)) s =
        if s = sys then some hook else getHook table s := by
    intro grown inside same s
    rw [getHook_eq, getD_set _ inside, same]
    exact if_congr BitVec.toNat_inj rfl rfl
  rw [register] at registered
  by_cases short : table.length ≤ sys.toNat
  · rw [if_pos short] at registered
    obtain ⟨grown, resized, inside⟩ := Option.bind_eq_some_iff.mp registered
    obtain rfl := resizeTo_some resized
    by_cases covered : sys.toNat < (resize none (sys + 1).toNat table).length
    · rw [if_pos covered] at inside
      obtain rfl := Option.some.inj inside
      have next : (sys + 1).toNat = sys.toNat + 1 := by
        rw [length_resize] at covered
        bv_omega
      refine ⟨?_, stored covered fun s => ?_⟩
      · rw [List.length_set, length_resize, next]
        omega
      · rw [getD_resize (by omega), getHook_eq]
    · rw [if_neg covered] at inside
      cases inside
  · have inside : sys.toNat < table.length := Nat.lt_of_not_le short
    rw [if_neg short, Option.bind_some, if_pos inside] at registered
    obtain rfl := Option.some.inj registered
    refine ⟨?_, stored inside fun s => (getHook_eq table s).symm⟩
    rw [List.length_set]
    omega

theorem lookup_absent {map : List (U64 × H)} {sys : U64} (absent : sys ∉ map.map Prod.fst) :
    map.lookup sys = none := by
  rw [List.lookup_eq_none_iff]
  intro entry listed
  exact bne_iff_ne.mpr fun same => absent (same ▸ List.mem_map_of_mem listed)

/-- The loop adds the registrations to what the table holds. -/
theorem fill_some {granted : Nat → Nat → Bool} {i : Nat} {map : List (U64 × H)}
    {table after : List (Option H)} (distinct : (map.map Prod.fst).Nodup)
    (filled : (fill granted i map table).table = some after) :
    (map ≠ [] → after.length = max table.length (maximum map + 1)) ∧
      ∀ sys, getHook after sys = (map.lookup sys).or (getHook table sys) := by
  induction map generalizing i table with
  | nil =>
    obtain rfl := Option.some.inj filled
    exact ⟨fun some => absurd rfl some, fun _ => rfl⟩
  | cons entry rest ih =>
    obtain ⟨sys, hook⟩ := entry
    rw [List.map_cons, List.nodup_cons] at distinct
    obtain ⟨fresh, distinct⟩ := distinct
    rw [fill] at filled
    cases registered : register granted table sys hook with
    | none =>
      rw [registered] at filled
      cases filled
    | some next =>
      rw [registered] at filled
      obtain ⟨covers, stores⟩ := register_some registered
      obtain ⟨length, looks⟩ := ih distinct filled
      constructor
      · intro _
        by_cases last : rest = []
        · subst last
          obtain rfl := Option.some.inj filled
          rw [covers, maximum, maximum, Nat.max_zero]
        · rw [length last, covers, maximum]
          omega
      · intro s
        rw [looks, stores, List.lookup_cons]
        by_cases here : s = sys
        · rw [here, lookup_absent fresh, if_pos rfl, beq_self_eq_true]
          rfl
        · rw [if_neg here, beq_false_of_ne here]

/-- The number that sizes the table first is the larger one of the first registration's
and the one behind the list. -/
theorem chosen_eq (map : List (U64 × H)) (beyond : U64) :
    sysnoAt map beyond (maxIterator map beyond) =
      if sysnoAt map beyond 0 < beyond then beyond else sysnoAt map beyond 0 := by
  have behind : sysnoAt map beyond map.length = beyond := by
    rw [sysnoAt, List.getElem?_eq_none (Nat.le_refl _)]
  rw [maxIterator, behind]
  by_cases larger : sysnoAt map beyond 0 < beyond
  · rw [if_pos larger, if_pos larger, behind]
  · rw [if_neg larger, if_neg larger]

theorem first_le_maximum {map : List (U64 × H)} (nonempty : map ≠ []) (beyond : U64) :
    (sysnoAt map beyond 0).toNat ≤ maximum map := by
  cases map with
  | nil => exact absurd rfl nonempty
  | cons entry rest => exact Nat.le_max_left _ _

/-- What a construction that returns has done. -/
theorem build_some {granted : Nat → Nat → Bool} {map : List (U64 × H)} {beyond : U64}
    {table : List (Option H)} (built : (buildHookTable granted map beyond).table = some table) :
    ∃ sized, sized = resize none
        (sysnoAt map beyond (maxIterator map beyond) + 1).toNat ([] : List (Option H)) ∧
      (fill granted 0 map sized).table = some table := by
  rw [buildHookTable] at built
  split at built
  · cases built
  · next sized resized => exact ⟨sized, resizeTo_some resized, built⟩

/-- A table that is built has the registered hooks and no others. -/
theorem build_lookup {granted : Nat → Nat → Bool} {map : List (U64 × H)} {beyond : U64}
    {table : List (Option H)} (distinct : (map.map Prod.fst).Nodup)
    (built : (buildHookTable granted map beyond).table = some table) (sys : U64) :
    getHook table sys = map.lookup sys := by
  obtain ⟨sized, rfl, filled⟩ := build_some built
  rw [(fill_some distinct filled).2, getHook_eq, getD_resize (Nat.zero_le _), List.getD_nil,
    Option.or_none]

/-- It is as long as it should be if and only if the number behind the list is not larger
than all registered ones (or the largest of all, whose successor is zero). -/
theorem build_length_iff {granted : Nat → Nat → Bool} {map : List (U64 × H)} {beyond : U64}
    {table : List (Option H)} (nonempty : map ≠ []) (distinct : (map.map Prod.fst).Nodup)
    (built : (buildHookTable granted map beyond).table = some table) :
    table.length = maximum map + 1 ↔ (beyond + 1).toNat ≤ maximum map + 1 := by
  obtain ⟨sized, rfl, filled⟩ := build_some built
  have first := first_le_maximum nonempty beyond
  rw [(fill_some distinct filled).1 nonempty, length_resize, chosen_eq]
  split <;> bv_omega

/-! ## When it returns -/

theorem register_returns {granted : Nat → Nat → Bool} (all : ∀ old new, granted old new)
    {sys : U64} (small : sys.toNat < maxSize) (table : List (Option H)) (hook : H) :
    ∃ after, register granted table sys hook = some after := by
  rw [register]
  by_cases short : table.length ≤ sys.toNat
  · have next : (sys + 1).toNat = sys.toNat + 1 := by
      rw [maxSize] at small
      bv_omega
    have fits : (sys + 1).toNat ≤ table.length ∨
        (sys + 1).toNat ≤ maxSize ∧ granted table.length (sys + 1).toNat :=
      Or.inr ⟨by omega, all _ _⟩
    rw [if_pos short, resizeTo, if_pos fits, Option.bind_some, length_resize,
      if_pos (by omega)]
    exact ⟨_, rfl⟩
  · rw [if_neg short, Option.bind_some, if_pos (Nat.lt_of_not_le short)]
    exact ⟨_, rfl⟩

theorem fill_returns {granted : Nat → Nat → Bool} (all : ∀ old new, granted old new)
    {map : List (U64 × H)} (small : ∀ entry ∈ map, entry.1.toNat < maxSize) (i : Nat)
    (table : List (Option H)) : ∃ after, (fill granted i map table).table = some after := by
  induction map generalizing i table with
  | nil => exact ⟨table, rfl⟩
  | cons entry rest ih =>
    rw [List.forall_mem_cons] at small
    obtain ⟨next, registered⟩ := register_returns all small.1 table entry.2
    obtain ⟨after, filled⟩ := ih small.2 (i + 1) next
    refine ⟨after, ?_⟩
    rw [fill, registered]
    exact filled

/-- With memory enough, and numbers that are no larger than a vector, it returns. -/
theorem build_returns {granted : Nat → Nat → Bool} (all : ∀ old new, granted old new)
    {map : List (U64 × H)} (nonempty : map ≠ [])
    (small : ∀ entry ∈ map, entry.1.toNat < maxSize) {beyond : U64}
    (near : beyond.toNat < maxSize) :
    ∃ table, (buildHookTable granted map beyond).table = some table := by
  have chosen : (sysnoAt map beyond (maxIterator map beyond)).toNat < maxSize := by
    rw [chosen_eq]
    split
    · exact near
    · cases map with
      | nil => exact absurd rfl nonempty
      | cons entry rest => exact small entry List.mem_cons_self
  have fits : (sysnoAt map beyond (maxIterator map beyond) + 1).toNat ≤ maxSize := by
    rw [maxSize] at chosen ⊢
    bv_omega
  rw [buildHookTable, resizeTo, if_pos (Or.inr ⟨fits, all _ _⟩)]
  exact fill_returns all small 0 _

theorem hookMap_distinct : (hookMap.map Prod.fst).Nodup := by decide

/-- The table of the program has its hooks, and the right length if the number behind the
list is no larger than that of `prlimit64`. -/
theorem hookMap_built {beyond : U64} (near : beyond.toNat < maxSize) :
    ∃ table, (buildHookTable (fun _ _ => true) hookMap beyond).table = some table ∧
      (∀ sys, getHook table sys = hookMap.lookup sys) ∧
      (table.length = 303 ↔ beyond.toNat ≤ 302) := by
  have small : ∀ entry ∈ hookMap, entry.1.toNat < maxSize := by
    have all : hookMap.all (fun entry => decide (entry.1.toNat < maxSize)) = true := by decide
    exact fun entry listed => of_decide_eq_true (List.all_eq_true.mp all entry listed)
  have nonempty : hookMap ≠ [] := by decide
  obtain ⟨table, built⟩ := build_returns (fun _ _ => rfl) nonempty small near
  refine ⟨table, built, build_lookup hookMap_distinct built, ?_⟩
  have largest : maximum hookMap = 302 := by decide
  have length := build_length_iff nonempty hookMap_distinct built
  rw [largest] at length
  rw [length]
  rw [maxSize] at near
  bv_omega

/-- Every construction reads behind the list, whatever is there. One that returns gives a
table with the registered hooks and no others; its length depends on what was read. -/
theorem construction_never_exact (granted : Nat → Nat → Bool) {map : List (U64 × H)}
    (nonempty : map ≠ []) (distinct : (map.map Prod.fst).Nodup) (beyond : U64) :
    ¬Exact map (buildHookTable granted map beyond) ∧
      ∀ table, (buildHookTable granted map beyond).table = some table →
        (∀ sys, getHook table sys = map.lookup sys) ∧
          (table.length = maximum map + 1 ↔ (beyond + 1).toNat ≤ maximum map + 1) := by
  constructor
  · intro exact
    have read : map.length ∈ (buildHookTable granted map beyond).reads := by
      rw [buildHookTable]
      split <;> simp
    exact absurd (exact.reads _ read) (Nat.lt_irrefl _)
  · intro table built
    exact ⟨build_lookup distinct built, build_length_iff nonempty distinct built⟩

theorem construction_never_exact_hookMap :
    ¬Exact hookMap (buildHookTable (fun _ _ => true) hookMap 0) :=
  (construction_never_exact (fun _ _ => true) (by decide) hookMap_distinct 0).1

/-- One registration for `write`, and behind it the number 7: the number is read twice and
the table gets eight entries. -/
theorem write_gets_eight_entries :
    let c := buildHookTable (fun _ _ => true) [(SYS_write, Hook.sysWrite)] 7
    c.reads = [0, 1, 1, 0] ∧ c.table.map List.length = some 8 ∧
      ¬Exact [(SYS_write, Hook.sysWrite)] c := by
  intro c
  have reads : c.reads = [0, 1, 1, 0] := by decide
  have length : c.table.map List.length = some 8 := by decide
  refine ⟨reads, length, fun exact => ?_⟩
  have inside := exact.reads 1 (by rw [reads]; decide)
  exact absurd inside (by decide)

end HookTable
