import Mathlib.Data.List.Induction
import Redstone.FdTable

/-!
# Descriptor numbers are recycled

In a run that only looks up numbers it was given, null entries appear under closed numbers
only. Every number ever handed out is then open or on the free list, and when the free
list is empty the size of the table is the first number never used. So as many numbers
are in circulation as descriptors were ever open at once.
-/

namespace FdRecycling

open MachineWords StepRuns FdTable FdTable.Table

universe u
variable {δ : Type u}

/-- The open numbers: those with a descriptor behind them. -/
def openFds (t : Table δ) : Finset CInt := t.table.keys.filter fun fd => (t.live fd).isSome

theorem mem_openFds {t : Table δ} {fd : CInt} : fd ∈ openFds t ↔ (t.live fd).isSome := by
  rw [openFds, Finset.mem_filter, and_iff_right_iff_imp]
  intro used
  obtain ⟨d, found⟩ := Option.isSome_iff_exists.mp used
  exact Finmap.mem_keys.mpr (mem_of_live found)

/-- The number a call hands out. -/
def handedOut (t : Table δ) : FdOp δ → Option CInt
  | .insert d => if 0 ≤ (t.insert (some d)).1.toInt then some (t.insert (some d)).1 else none
  | .get _ => none
  | .close _ => none

/-- The numbers that the inserts of a run returned. -/
def issuedFds (t : Table δ) : List (FdOp δ) → List CInt
  | [] => []
  | op :: rest => (handedOut t op).toList ++ issuedFds (step t op).2 rest

/-- The most descriptors open at once in a run, its first and its last state included. -/
def peak (t : Table δ) : List (FdOp δ) → Nat
  | [] => (openFds t).card
  | op :: rest => max (openFds t).card (peak (step t op).2 rest)

/-- Whose numbers are in use after a call, by its reply: an insert that succeeds takes its
number into use, a close that succeeds takes it out of use. -/
def afterReply (held : Finset CInt) : FdOp δ → FdReply δ → Finset CInt
  | .insert _, .number fd => if 0 ≤ fd.toInt then insert fd held else held
  | .close fd, .number rc => if rc = 0 then held.erase fd else held
  | _, _ => held

/-- The numbers in use after a run, told from the calls and their replies alone. -/
def inUse (t : Table δ) (held : Finset CInt) : List (FdOp δ) → Finset CInt
  | [] => held
  | op :: rest => inUse (step t op).2 (afterReply held op (step t op).1) rest

/-- A number is looked up only after an insert returned it. -/
def Disciplined (ops : List (FdOp δ)) : Prop :=
  ∀ before fd after, ops = before ++ .get fd :: after → fd ∈ issuedFds empty before

theorem issuedFds_snoc (t : Table δ) (ops : List (FdOp δ)) (op : FdOp δ) :
    issuedFds t (ops ++ [op]) = issuedFds t ops ++ (handedOut (run step t ops) op).toList := by
  induction ops generalizing t with
  | nil => exact List.append_nil _
  | cons first rest ih =>
    rw [List.cons_append, issuedFds, ih, issuedFds, List.append_assoc, run_cons]

theorem peak_snoc (t : Table δ) (ops : List (FdOp δ)) (op : FdOp δ) :
    peak t (ops ++ [op]) = max (peak t ops) (openFds (step (run step t ops) op).2).card := by
  induction ops generalizing t with
  | nil => rfl
  | cons first rest ih =>
    rw [List.cons_append, peak, ih, peak, run_cons, Nat.max_assoc]

theorem inUse_snoc (t : Table δ) (held : Finset CInt) (ops : List (FdOp δ)) (op : FdOp δ) :
    inUse t held (ops ++ [op]) =
      afterReply (inUse t held ops) op (step (run step t ops) op).1 := by
  induction ops generalizing t held with
  | nil => rfl
  | cons first rest ih => rw [List.cons_append, inUse, ih, inUse, run_cons]

theorem Disciplined.init {ops : List (FdOp δ)} {op : FdOp δ}
    (disciplined : Disciplined (ops ++ [op])) : Disciplined ops := by
  intro before fd after split
  apply disciplined before fd (after ++ [op])
  rw [split, List.append_assoc, List.cons_append]

theorem Disciplined.last {ops : List (FdOp δ)} {fd : CInt}
    (disciplined : Disciplined (ops ++ [.get fd])) : fd ∈ issuedFds empty ops :=
  disciplined ops fd [] rfl

/-- The numbers issued so far are the first `high` ones; the free and the open ones among
them are all of them, and no other number has an entry. -/
structure Circulating (issued : List CInt) (high : Nat) (t : Table δ) : Prop where
  exact : ∀ fd, fd ∈ issued ↔ ∃ i < high, fd = simulatedFd i
  bounded : high ≤ capacity
  nodup : t.unused.Nodup
  accounted : ∀ fd, fd ∈ issued ↔ fd ∈ t.unused ∨ (t.live fd).isSome
  apart : ∀ fd ∈ t.unused, t.live fd = none
  entries : ∀ fd ∈ t.table, fd ∈ issued

namespace Circulating

variable {issued : List CInt} {high : Nat} {t : Table δ}

/-- The numbers in circulation are counted by the free and the open ones. -/
theorem count (h : Circulating issued high t) :
    high = t.unused.length + (openFds t).card := by
  have limit : capacity < 2 ^ 30 := by decide
  have bounded := h.bounded
  have all : (Finset.range high).image simulatedFd = t.unused.toFinset ∪ openFds t := by
    ext fd
    rw [Finset.mem_union, List.mem_toFinset, mem_openFds, ← h.accounted, h.exact,
      Finset.mem_image]
    constructor
    · rintro ⟨i, below, same⟩
      exact ⟨i, Finset.mem_range.mp below, same.symm⟩
    · rintro ⟨i, below, same⟩
      exact ⟨i, Finset.mem_range.mpr below, same.symm⟩
  have apart : Disjoint t.unused.toFinset (openFds t) := by
    rw [Finset.disjoint_left]
    intro fd free used
    rw [mem_openFds, h.apart fd (List.mem_toFinset.mp free)] at used
    cases used
  have injective : Set.InjOn simulatedFd (Finset.range high) := by
    intro i hi j hj same
    have below := Finset.mem_range.mp hi
    have below' := Finset.mem_range.mp hj
    exact simulatedFd_inj (by omega) (by omega) same
  have cards := congrArg Finset.card all
  rw [Finset.card_image_of_injOn injective, Finset.card_range, Finset.card_union_of_disjoint apart,
    List.toFinset_card_of_nodup h.nodup] at cards
  exact cards

/-- With no free number, the table has the open numbers and no other. -/
theorem size_of_drained (h : Circulating issued high t) (drained : t.unused = []) :
    t.size = high := by
  have keys : t.table.keys = openFds t := by
    ext fd
    rw [mem_openFds, Finmap.mem_keys]
    constructor
    · intro entry
      rcases (h.accounted fd).mp (h.entries fd entry) with free | used
      · rw [drained] at free
        cases free
      · exact used
    · intro used
      obtain ⟨d, found⟩ := Option.isSome_iff_exists.mp used
      exact mem_of_live found
  rw [size, keys, h.count, drained, List.length_nil, Nat.zero_add]

end Circulating

namespace Circulating

variable {issued : List CInt} {high : Nat} {t : Table δ}

theorem open_le (h : Circulating issued high t) : (openFds t).card ≤ high := by
  have := h.count
  omega

theorem get (h : Circulating issued high t) {fd : CInt} (known : fd ∈ issued) :
    Circulating issued high (t.get fd).2 := by
  obtain ⟨-, live, unused, keys⟩ := t.get_spec fd
  refine ⟨h.exact, h.bounded, ?_, ?_, ?_, ?_⟩
  · rw [unused]
    exact h.nodup
  · rw [unused, live]
    exact h.accounted
  · rw [unused, live]
    exact h.apart
  · intro a entry
    rw [← Finmap.mem_keys, keys] at entry
    rcases Finset.mem_insert.mp entry with rfl | old
    · exact known
    · exact h.entries a (Finmap.mem_keys.mp old)

theorem close (h : Circulating issued high t) (fd : CInt) :
    Circulating issued high (t.close fd).2 := by
  obtain ⟨nodup, apart⟩ := unused_close h.nodup h.apart fd
  refine ⟨h.exact, h.bounded, nodup, ?_, apart, ?_⟩
  · intro a
    cases used : t.live fd with
    | none =>
      simp only [Table.close, used]
      exact h.accounted a
    | some d =>
      simp only [Table.close, used]
      rw [h.accounted, List.mem_append, List.mem_singleton]
      by_cases closed : a = fd
      · rw [closed, used, live_erase_self]
        simp
      · rw [live_erase_ne closed, or_iff_left closed]
  · intro a entry
    cases used : t.live fd with
    | none =>
      simp only [Table.close, used] at entry
      exact h.entries a entry
    | some d =>
      simp only [Table.close, used] at entry
      exact h.entries a (Finmap.mem_erase.mp entry).2

/-- A number that is put to use leaves the free list, or was never on it. -/
theorem fill (h : Circulating issued high t) {fd : CInt} {rest : List CInt} {high' : Nat} (d : δ)
    (exact : ∀ a, a ∈ issued ++ [fd] ↔ ∃ i < high', a = simulatedFd i)
    (bounded : high' ≤ capacity) (nodup : rest.Nodup) (gone : fd ∉ rest)
    (others : ∀ a, a ≠ fd → (a ∈ t.unused ↔ a ∈ rest)) :
    Circulating (issued ++ [fd]) high' ⟨t.table.insert fd (some d), rest⟩ := by
  refine ⟨exact, bounded, nodup, ?_, ?_, ?_⟩
  · intro a
    by_cases now : a = fd
    · rw [now, live_insert_self]
      simp
    · rw [live_insert_ne now, List.mem_append, List.mem_singleton, or_iff_left now, h.accounted,
        others a now]
  · intro a free
    have now : a ≠ fd := fun same => gone (same ▸ free)
    rw [live_insert_ne now]
    exact h.apart a ((others a now).mpr free)
  · intro a entry
    rcases Finmap.mem_insert.mp entry with now | old
    · exact List.mem_append_right _ (List.mem_singleton.mpr now)
    · exact List.mem_append_left _ (h.entries a old)

/-- The number of an insert is the last freed one, or the first never used. -/
theorem insert (h : Circulating issued high t) (d : δ) :
    Circulating (issued ++ (handedOut t (.insert d)).toList)
      (max high (openFds (t.insert (some d)).2).card) (t.insert (some d)).2 := by
  rcases t.insert_cases (some d) with ⟨fd, rest, free, result⟩ | ⟨-, -, result⟩ |
    ⟨drained, room, result⟩
  · have nodup := h.nodup
    rw [free] at nodup
    have gone : fd ∉ rest := fun again =>
      (List.nodup_append'.mp nodup).2.2 again (List.mem_singleton_self fd)
    have known : fd ∈ issued := (h.accounted fd).mpr (Or.inl (by simp [free]))
    obtain ⟨i, below, same⟩ := (h.exact fd).mp known
    have accepted : 0 ≤ fd.toInt := by
      rw [same]
      exact simulatedFd_nonneg (Nat.lt_of_lt_of_le below h.bounded)
    have exact : ∀ a, a ∈ issued ++ [fd] ↔ ∃ i < high, a = simulatedFd i := by
      intro a
      rw [List.mem_append, List.mem_singleton, ← h.exact]
      exact or_iff_left_of_imp fun now => now ▸ known
    have others : ∀ a, a ≠ fd → (a ∈ t.unused ↔ a ∈ rest) := by
      intro a now
      rw [free, List.mem_append, List.mem_singleton, or_iff_left now]
    have filled := h.fill d exact h.bounded (List.nodup_append'.mp nodup).1 gone others
    rw [handedOut, result, if_pos accepted, Nat.max_eq_left filled.open_le]
    exact filled
  · rw [handedOut, result, if_neg refused_negative, Nat.max_eq_left h.open_le]
    simpa using h
  · have next : t.size = high := h.size_of_drained drained
    have exact : ∀ a, a ∈ issued ++ [simulatedFd t.size] ↔
        ∃ i < high + 1, a = simulatedFd i := by
      intro a
      rw [List.mem_append, List.mem_singleton, h.exact, next]
      constructor
      · rintro (⟨i, below, same⟩ | now)
        · exact ⟨i, by omega, same⟩
        · exact ⟨high, by omega, now⟩
      · rintro ⟨i, below, same⟩
        rcases Nat.lt_succ_iff_lt_or_eq.mp below with old | new
        · exact Or.inl ⟨i, old, same⟩
        · exact Or.inr (new ▸ same)
    have others : ∀ a, a ≠ simulatedFd t.size → (a ∈ t.unused ↔ a ∈ ([] : List CInt)) := by
      intro a _
      rw [drained]
    have filled := h.fill d exact (by omega) List.nodup_nil List.not_mem_nil others
    have grown := filled.count
    rw [List.length_nil, Nat.zero_add] at grown
    rw [handedOut, result, if_pos (simulatedFd_nonneg room), ← grown,
      Nat.max_eq_right (Nat.le_succ high)]
    exact filled

end Circulating

theorem circulating_empty : Circulating [] 0 (empty : Table δ) where
  exact := by simp
  bounded := Nat.zero_le _
  nodup := List.nodup_nil
  accounted := by
    intro fd
    simp [empty, live]
  apart := by
    intro fd free
    cases free
  entries := by
    intro fd entry
    exact absurd entry Finmap.notMem_empty

theorem circulating_run {ops : List (FdOp δ)} (disciplined : Disciplined ops) :
    Circulating (issuedFds empty ops) (peak empty ops) (run step empty ops) := by
  induction ops using List.reverseRecOn with
  | nil => exact circulating_empty
  | append_singleton ops op ih =>
    have before := ih disciplined.init
    rw [issuedFds_snoc, peak_snoc, run_append]
    cases op with
    | insert d => exact before.insert d
    | get fd =>
      have after := before.get disciplined.last
      rw [handedOut, Option.toList_none, List.append_nil]
      exact (Nat.max_eq_left after.open_le).symm ▸ after
    | close fd =>
      have after := before.close fd
      rw [handedOut, Option.toList_none, List.append_nil]
      exact (Nat.max_eq_left after.open_le).symm ▸ after

/-! ## The open numbers and the replies -/

theorem openFds_get (t : Table δ) (fd : CInt) : openFds (t.get fd).2 = openFds t := by
  ext a
  rw [mem_openFds, mem_openFds, (t.get_spec fd).2.1]

/-- A close that succeeds takes its number out of the open ones, and one that fails none. -/
theorem openFds_close (t : Table δ) (fd : CInt) :
    openFds (t.close fd).2 = if (t.close fd).1 = 0 then (openFds t).erase fd else openFds t := by
  have failed : failure 32 EBADFD ≠ 0 := by decide
  cases used : t.live fd with
  | none =>
    simp only [Table.close, used]
    rw [if_neg failed]
  | some d =>
    simp only [Table.close, used, ↓reduceIte]
    ext a
    rw [mem_openFds, Finset.mem_erase, mem_openFds]
    by_cases closed : a = fd
    · rw [closed, live_erase_self]
      simp
    · rw [live_erase_ne closed, and_iff_right closed]

theorem openFds_fill (m : Finmap (fun _ : CInt => Option δ)) (u v : List CInt) (fd : CInt) (d : δ) :
    openFds ⟨m.insert fd (some d), u⟩ = insert fd (openFds ⟨m, v⟩) := by
  ext a
  rw [mem_openFds, Finset.mem_insert, mem_openFds]
  by_cases now : a = fd
  · rw [now, live_insert_self]
    simp
  · rw [live_insert_ne now, or_iff_right now]

/-- An insert that succeeds adds its number to the open ones, and one that fails none. -/
theorem openFds_insert {issued : List CInt} {high : Nat} {t : Table δ}
    (h : Circulating issued high t) (d : δ) :
    openFds (t.insert (some d)).2 =
      if 0 ≤ (t.insert (some d)).1.toInt then insert (t.insert (some d)).1 (openFds t)
      else openFds t := by
  rcases t.insert_cases (some d) with ⟨fd, rest, free, result⟩ | ⟨-, -, result⟩ |
    ⟨-, room, result⟩
  · have known : fd ∈ issued := (h.accounted fd).mpr (Or.inl (by simp [free]))
    obtain ⟨i, below, same⟩ := (h.exact fd).mp known
    have accepted : 0 ≤ fd.toInt := by
      rw [same]
      exact simulatedFd_nonneg (Nat.lt_of_lt_of_le below h.bounded)
    rw [result, if_pos accepted]
    exact openFds_fill t.table rest t.unused fd d
  · rw [result, if_neg refused_negative]
  · rw [result, if_pos (simulatedFd_nonneg room)]
    exact openFds_fill t.table t.unused t.unused (simulatedFd t.size) d

theorem openFds_step {issued : List CInt} {high : Nat} {t : Table δ}
    (h : Circulating issued high t) (op : FdOp δ) :
    openFds (step t op).2 = afterReply (openFds t) op (step t op).1 := by
  cases op with
  | insert d => exact openFds_insert h d
  | get fd => exact openFds_get t fd
  | close fd => exact openFds_close t fd

theorem openFds_empty : openFds (empty : Table δ) = ∅ := by
  ext fd
  rw [mem_openFds]
  simp [empty, live]

theorem openFds_run {ops : List (FdOp δ)} (disciplined : Disciplined ops) :
    openFds (run step empty ops) = inUse empty ∅ ops := by
  induction ops using List.reverseRecOn with
  | nil => exact openFds_empty
  | append_singleton ops op ih =>
    rw [inUse_snoc, run_append, ← ih disciplined.init]
    exact openFds_step (circulating_run disciplined.init) op

/-- What is to hold after a run: the open numbers are those that the calls took into use and
not out of it again; and what the numbers ever handed out are, the free list, which numbers
close, and when an insert refuses. -/
structure Recycled (ops : List (FdOp δ)) (t : Table δ) : Prop where
  held : openFds t = inUse empty ∅ ops
  issued : ∀ fd, fd ∈ issuedFds empty ops ↔ ∃ i < peak empty ops, fd = simulatedFd i
  nodup : t.unused.Nodup
  accounted : ∀ fd, fd ∈ issuedFds empty ops ↔ fd ∈ t.unused ∨ fd ∈ openFds t
  apart : ∀ fd ∈ t.unused, fd ∉ openFds t
  closes : ∀ fd, (t.close fd).1 = 0 ↔ fd ∈ openFds t
  keeps : ∀ fd, fd ∉ openFds t → (t.close fd).2 = t
  full : ∀ d, (t.insert (some d)).1 = -1 ↔ (openFds t).card = capacity

theorem closes_iff (t : Table δ) (fd : CInt) : (t.close fd).1 = 0 ↔ fd ∈ openFds t := by
  have failed : failure 32 EBADFD ≠ 0 := by decide
  rw [mem_openFds, Table.close]
  cases t.live fd with
  | none => exact iff_of_false failed Bool.false_ne_true
  | some d => exact iff_of_true rfl rfl

theorem close_keeps {t : Table δ} {fd : CInt} (closed : fd ∉ openFds t) :
    (t.close fd).2 = t := by
  have none : t.live fd = none := by
    rw [mem_openFds] at closed
    exact Option.not_isSome_iff_eq_none.mp closed
  simp only [Table.close, none]

theorem insert_refused_iff {issued : List CInt} {high : Nat} {t : Table δ}
    (h : Circulating issued high t) (d : δ) :
    (t.insert (some d)).1 = -1 ↔ (openFds t).card = capacity := by
  have bounded := h.bounded
  have count := h.count
  have accepted : ∀ i < capacity, simulatedFd i ≠ -1 := fun i small refused =>
    refused_negative (refused ▸ simulatedFd_nonneg small)
  rcases t.insert_cases (some d) with ⟨fd, rest, free, result⟩ | ⟨drained, full, result⟩ |
    ⟨drained, room, result⟩
  · have known : fd ∈ issued := (h.accounted fd).mpr (Or.inl (by simp [free]))
    obtain ⟨i, below, same⟩ := (h.exact fd).mp known
    rw [free, List.length_append, List.length_singleton] at count
    rw [result, same]
    exact iff_of_false (accepted i (by omega)) (by omega)
  · have next := h.size_of_drained drained
    rw [drained, List.length_nil] at count
    rw [result]
    exact iff_of_true rfl (by omega)
  · have next := h.size_of_drained drained
    rw [drained, List.length_nil] at count
    rw [result]
    exact iff_of_false (accepted t.size room) (by omega)

/-- After every run that looks up only numbers it was given, the open numbers are those that
an insert returned and no close took back since, the numbers handed out are as many as were
ever open at once, the free list and the open numbers partition them, a close succeeds on the
open ones only, and an insert is refused only at capacity. -/
theorem fds_recycled (ops : List (FdOp δ)) (disciplined : Disciplined ops) :
    Recycled ops (run step empty ops) := by
  have h := circulating_run disciplined
  refine ⟨openFds_run disciplined, h.exact, h.nodup, ?_, ?_, closes_iff _, fun _ => close_keeps,
    insert_refused_iff h⟩
  · intro fd
    rw [h.accounted, mem_openFds]
  · intro fd free
    rw [mem_openFds, h.apart fd free]
    exact Bool.false_ne_true

/-- Two descriptors, the first of them closed, looked up while closed, and replaced. -/
theorem fds_recycled_reuse :
    Recycled [.insert 10, .insert 11, .close (simulatedFd 0), .get (simulatedFd 0), .insert 12]
      (run step (empty : Table Nat)
        [.insert 10, .insert 11, .close (simulatedFd 0), .get (simulatedFd 0), .insert 12]) := by
  apply fds_recycled
  intro before fd after split
  rcases before with _ | ⟨a, _ | ⟨b, _ | ⟨c, _ | ⟨e, _ | ⟨g, before⟩⟩⟩⟩⟩ <;> simp at split
  obtain ⟨rfl, rfl, rfl, rfl, -⟩ := split
  decide

end FdRecycling
