import Mathlib.Data.Finmap
import Redstone.MachineWords
import Redstone.StepRuns

/-!
# The simulated descriptor table

`table_` maps numbers to shared pointers, so an entry may be null; the lookup uses
`operator[]` and leaves a null entry behind for every number it is asked about.
New numbers come from `table_.size()` when the free list is empty. The invariant
counts the numbers in the table or on the free list: every number ever handed out
has an index below that count, so the next one is not in use unless a lookup
already left an entry under it.
-/

namespace FdTable

open MachineWords StepRuns

universe u
variable {δ : Type u}

/-- `none` in a slot is a null pointer; `δ` stands for descriptor objects. -/
structure Table (δ : Type u) where
  table : Finmap (fun _ : CInt => Option δ)
  unused : List CInt

def empty : Table δ := ⟨∅, []⟩

def simulated : CInt := 1 <<< 30

def capacity : Nat := 2 ^ 30 - 1

def isSimulated (fd : CInt) : Bool := fd &&& simulated ≠ 0

/-- The number made from an index: the index with the simulated bit set. -/
def simulatedFd (n : Nat) : CInt := BitVec.ofNat 32 n ||| simulated

namespace Table

def size (t : Table δ) : Nat := t.table.keys.card

/-- The live descriptor in a slot, if the slot exists and is not null. -/
def live (t : Table δ) (fd : CInt) : Option δ := (t.table.lookup fd).join

def get (t : Table δ) (fd : CInt) : Option δ × Table δ :=
  match t.table.lookup fd with
  | some slot => (slot, t)
  | none => (none, { t with table := t.table.insert fd none })

def close (t : Table δ) (fd : CInt) : CInt × Table δ :=
  match t.live fd with
  | none => (failure 32 EBADFD, t)
  | some _ => (0, { table := t.table.erase fd, unused := t.unused ++ [fd] })

def insert (t : Table δ) (fildes : Option δ) : CInt × Table δ :=
  match t.unused.getLast? with
  | some fd => (fd, { table := t.table.insert fd fildes, unused := t.unused.dropLast })
  | none =>
    if capacity ≤ t.size then (-1, t)
    else (simulatedFd t.size,
      { t with table := t.table.insert (simulatedFd t.size) fildes })

end Table

inductive FdOp (δ : Type u) where
  | insert (d : δ)
  | get (fd : CInt)
  | close (fd : CInt)
  deriving DecidableEq

inductive FdReply (δ : Type u) where
  | number (fd : CInt)
  | descriptor (d : Option δ)

def step (t : Table δ) : FdOp δ → FdReply δ × Table δ
  | .insert d => let (fd, t') := t.insert (some d); (.number fd, t')
  | .get fd => let (d, t') := t.get fd; (.descriptor d, t')
  | .close fd => let (rc, t') := t.close fd; (.number rc, t')

theorem simulatedFd_toNat {n : Nat} (small : n < 2 ^ 30) :
    (simulatedFd n).toNat = 2 ^ 30 + n := by
  have low : n % 2 ^ 32 = n := Nat.mod_eq_of_lt (by omega)
  have bit : simulated.toNat = 2 ^ 30 * 1 := rfl
  rw [simulatedFd, BitVec.toNat_or, BitVec.toNat_ofNat, low, bit, Nat.or_comm,
    ← Nat.two_pow_add_eq_or_of_lt small 1, Nat.mul_one]

theorem simulatedFd_inj {m n : Nat} (hm : m < 2 ^ 30) (hn : n < 2 ^ 30)
    (same : simulatedFd m = simulatedFd n) : m = n := by
  have h := congrArg BitVec.toNat same
  rw [simulatedFd_toNat hm, simulatedFd_toNat hn] at h
  omega

theorem simulatedFd_nonneg {n : Nat} (small : n < capacity) : 0 ≤ (simulatedFd n).toInt := by
  have limit : capacity < 2 ^ 30 := by decide
  rw [BitVec.toInt_eq_toNat_cond, simulatedFd_toNat (by omega), if_pos (by omega)]
  omega

/-- The result of an insert that found no number is not accepted. -/
theorem refused_negative : ¬0 ≤ (-1 : CInt).toInt := by decide

theorem isSimulated_simulatedFd (n : Nat) : isSimulated (simulatedFd n) = true := by
  have absorbed : simulatedFd n &&& simulated = simulated := by
    rw [simulatedFd, BitVec.and_comm]
    ext i
    simp only [BitVec.getElem_and, BitVec.getElem_or]
    cases simulated[i] <;> simp
  rw [isSimulated, absorbed]
  rfl

namespace Table

theorem keys_insert (m : Finmap (fun _ : CInt => Option δ)) (fd : CInt) (d : Option δ) :
    (m.insert fd d).keys = Insert.insert fd m.keys := by
  ext a
  simp only [Finmap.mem_keys, Finmap.mem_insert, Finset.mem_insert]

theorem live_insert_self (m : Finmap (fun _ : CInt => Option δ)) (u : List CInt) (fd : CInt)
    (d : Option δ) : (Table.mk (m.insert fd d) u).live fd = d := by
  rw [live, Finmap.lookup_insert]
  rfl

theorem live_insert_ne {m : Finmap (fun _ : CInt => Option δ)} {u v : List CInt} {fd a : CInt}
    {d : Option δ} (different : a ≠ fd) :
    (Table.mk (m.insert fd d) u).live a = (Table.mk m v).live a := by
  rw [live, live, Finmap.lookup_insert_of_ne m different]

theorem live_erase_ne {m : Finmap (fun _ : CInt => Option δ)} {u v : List CInt} {fd a : CInt}
    (different : a ≠ fd) : (Table.mk (m.erase fd) u).live a = (Table.mk m v).live a := by
  rw [live, live, Finmap.lookup_erase_ne different]

theorem live_erase_self (m : Finmap (fun _ : CInt => Option δ)) (u : List CInt) (fd : CInt) :
    (Table.mk (m.erase fd) u).live fd = none := by
  rw [live, Finmap.lookup_erase]
  rfl

theorem mem_of_live {t : Table δ} {fd : CInt} {d : δ} (h : t.live fd = some d) :
    fd ∈ t.table := by
  cases found : t.table.lookup fd with
  | none =>
    rw [live, found] at h
    cases h
  | some slot => exact Finmap.mem_of_lookup_eq_some found

/-- A lookup answers with the live descriptor and changes no live slot. -/
theorem get_spec (t : Table δ) (fd : CInt) :
    (t.get fd).1 = t.live fd ∧ (t.get fd).2.live = t.live ∧
      (t.get fd).2.unused = t.unused ∧
      (t.get fd).2.table.keys = Insert.insert fd t.table.keys := by
  cases found : t.table.lookup fd with
  | some slot =>
    have present := Finmap.mem_keys.mpr (Finmap.mem_of_lookup_eq_some found)
    simp only [get, found, live, Option.join_some, Finset.insert_eq_of_mem present, and_self]
  | none =>
    simp only [get, found]
    refine ⟨by rw [live, found]; rfl, ?_, trivial, keys_insert _ _ _⟩
    funext a
    by_cases same : a = fd
    · subst same
      rw [live_insert_self, live, found]
      rfl
    · exact live_insert_ne same

/-- A close keeps the free list without duplicates and every number on it closed. -/
theorem unused_close {t : Table δ} (nodup : t.unused.Nodup)
    (closed : ∀ fd ∈ t.unused, t.live fd = none) (fd : CInt) :
    (t.close fd).2.unused.Nodup ∧ ∀ a ∈ (t.close fd).2.unused, (t.close fd).2.live a = none := by
  cases used : t.live fd with
  | none =>
    simp only [close, used]
    exact ⟨nodup, closed⟩
  | some d =>
    have notFree : fd ∉ t.unused := by
      intro free
      rw [closed fd free] at used
      cases used
    simp only [close, used]
    refine ⟨List.nodup_append'.mpr ⟨nodup, List.nodup_singleton fd,
      List.disjoint_singleton.mpr notFree⟩, ?_⟩
    intro a free
    by_cases now : a = fd
    · rw [now, live_erase_self]
    · rw [live_erase_ne now]
      rcases List.mem_append.mp free with free | here
      · exact closed a free
      · exact absurd (List.mem_singleton.mp here) now

/-- What an insert can do: reuse a closed number, refuse, or take a fresh one. -/
theorem insert_cases (t : Table δ) (d : Option δ) :
    (∃ fd rest, t.unused = rest ++ [fd] ∧ t.insert d = (fd, ⟨t.table.insert fd d, rest⟩)) ∨
    (t.unused = [] ∧ capacity ≤ t.size ∧ t.insert d = (-1, t)) ∨
    (t.unused = [] ∧ t.size < capacity ∧
      t.insert d = (simulatedFd t.size, ⟨t.table.insert (simulatedFd t.size) d, []⟩)) := by
  cases last : t.unused.getLast? with
  | some fd =>
    have split := List.dropLast_append_getLast? fd (Option.mem_def.mpr last)
    refine Or.inl ⟨fd, t.unused.dropLast, split.symm, ?_⟩
    simp only [insert, last]
  | none =>
    have drained := List.getLast?_eq_none_iff.mp last
    by_cases full : capacity ≤ t.size
    · refine Or.inr (Or.inl ⟨drained, full, ?_⟩)
      simp only [insert, last, if_pos full]
    · refine Or.inr (Or.inr ⟨drained, Nat.lt_of_not_le full, ?_⟩)
      rw [← drained]
      simp only [insert, last, if_neg full]

/-- The numbers that are in the table or on the free list. -/
def numbers (t : Table δ) : Finset CInt := t.table.keys ∪ t.unused.toFinset

/-- Every number handed out so far is `simulatedFd i` for some index below the count. -/
structure Inv (t : Table δ) : Prop where
  issued : ∀ fd, fd ∈ t.unused ∨ (t.live fd).isSome →
    ∃ i, i < t.numbers.card ∧ i < capacity ∧ fd = simulatedFd i
  nodup : t.unused.Nodup
  closed : ∀ fd ∈ t.unused, t.live fd = none

theorem inv_empty : Inv (empty : Table δ) where
  issued := by
    rintro fd (free | used)
    · cases free
    · rw [live, empty, Finmap.lookup_empty] at used
      cases used
  nodup := List.nodup_nil
  closed := by
    intro fd free
    cases free

/-- A fresh number about to be handed out is not yet a key: no lookup has been there. -/
def Unsquatted (t : Table δ) : FdOp δ → Prop
  | .insert _ => t.unused = [] → t.size < capacity → simulatedFd t.size ∉ t.table
  | _ => True

theorem inv_get {t : Table δ} (inv : Inv t) (fd : CInt) : Inv (t.get fd).2 := by
  obtain ⟨_, live, unused, keys⟩ := t.get_spec fd
  have grown : t.numbers.card ≤ (t.get fd).2.numbers.card := by
    apply Finset.card_le_card
    rw [numbers, numbers, unused, keys]
    exact Finset.union_subset_union_left (Finset.subset_insert fd _)
  refine ⟨?_, ?_, ?_⟩
  · intro a used
    rw [live, unused] at used
    obtain ⟨i, below, small, same⟩ := inv.issued a used
    exact ⟨i, by omega, small, same⟩
  · rw [unused]
    exact inv.nodup
  · rw [unused, live]
    exact inv.closed

theorem inv_close {t : Table δ} (inv : Inv t) (fd : CInt) : Inv (t.close fd).2 := by
  obtain ⟨nodup, closed⟩ := unused_close inv.nodup inv.closed fd
  refine ⟨?_, nodup, closed⟩
  cases used : t.live fd with
  | none =>
    simp only [close, used]
    exact inv.issued
  | some d =>
    have present := Finmap.mem_keys.mpr (mem_of_live used)
    have same : (Table.mk (t.table.erase fd) (t.unused ++ [fd])).numbers = t.numbers := by
      ext a
      by_cases h : a = fd
      · subst h
        simp only [numbers, List.toFinset_append, Finset.mem_union, List.mem_toFinset,
          List.mem_singleton, present, true_or, or_true]
      · simp only [numbers, Finmap.keys_erase, List.toFinset_append, Finset.mem_union,
          Finset.mem_erase, List.mem_toFinset, List.mem_singleton, h, ne_eq, not_false_eq_true,
          true_and, or_false]
    have stays : ∀ a, ((Table.mk (t.table.erase fd) (t.unused ++ [fd])).live a).isSome →
        (t.live a).isSome := by
      intro a h
      by_cases closed : a = fd
      · rw [closed, live_erase_self] at h
        cases h
      · rwa [live_erase_ne closed] at h
    simp only [close, used]
    intro a h
    rw [same]
    apply inv.issued
    rcases h with free | h
    · rcases List.mem_append.mp free with free | now
      · exact Or.inl free
      · rw [List.mem_singleton.mp now, used]
        exact Or.inr rfl
    · exact Or.inr (stays a h)

theorem inv_insert {t : Table δ} {d : δ} (inv : Inv t) (clear : Unsquatted t (.insert d)) :
    Inv (t.insert (some d)).2 := by
  rcases t.insert_cases (some d) with ⟨fd, rest, free, result⟩ | ⟨_, _, result⟩ |
    ⟨drained, room, result⟩
  · -- a closed number moves from the free list back to the table
    have nodup := inv.nodup
    rw [free] at nodup
    have notRest : fd ∉ rest := by
      have apart := (List.nodup_append'.mp nodup).2.2
      exact fun h => apart h (List.mem_singleton_self fd)
    have inUnused : ∀ a ∈ rest, a ∈ t.unused := by
      intro a h
      rw [free]
      exact List.mem_append_left _ h
    have same : (Table.mk (t.table.insert fd (some d)) rest).numbers = t.numbers := by
      rw [numbers, numbers, free, keys_insert, List.toFinset_append]
      ext a
      simp only [Finset.mem_union, Finset.mem_insert, List.mem_toFinset, List.mem_singleton]
      tauto
    rw [result]
    refine ⟨?_, (List.nodup_append'.mp nodup).1, ?_⟩
    · intro a h
      rw [same]
      apply inv.issued
      by_cases now : a = fd
      · rw [now, free]
        exact Or.inl (List.mem_append_right _ (List.mem_singleton_self fd))
      · rcases h with h | h
        · exact Or.inl (inUnused a h)
        · rw [live_insert_ne now] at h
          exact Or.inr h
    · intro a h
      have now : a ≠ fd := fun e => notRest (e ▸ h)
      rw [live_insert_ne now]
      exact inv.closed a (inUnused a h)
  · rw [result]
    exact inv
  · -- a fresh number: the count grows past its index
    have fresh : simulatedFd t.size ∉ t.table.keys := fun h =>
      clear drained room (Finmap.mem_keys.mp h)
    have before : t.numbers.card = t.size := by
      rw [numbers, drained, List.toFinset_nil, Finset.union_empty, size]
    have after : (Table.mk (t.table.insert (simulatedFd t.size) (some d)) []).numbers.card =
        t.size + 1 := by
      rw [numbers, keys_insert, List.toFinset_nil, Finset.union_empty,
        Finset.card_insert_of_notMem fresh, size]
    rw [result]
    refine ⟨?_, List.nodup_nil, ?_⟩
    · intro a h
      rw [after]
      by_cases now : a = simulatedFd t.size
      · exact ⟨t.size, by omega, room, now⟩
      · rcases h with h | h
        · cases h
        · rw [live_insert_ne now] at h
          obtain ⟨i, below, small, same⟩ := inv.issued a (Or.inr h)
          exact ⟨i, by omega, small, same⟩
    · intro a h
      cases h

theorem inv_step {t : Table δ} {op : FdOp δ} (inv : Inv t) (clear : Unsquatted t op) :
    Inv (step t op).2 := by
  cases op with
  | insert d => exact inv_insert inv clear
  | get fd => exact inv_get inv fd
  | close fd => exact inv_close inv fd

/-- A number an insert hands out has the simulated bit and an empty slot. -/
def HandsOutFree (t : Table δ) : FdOp δ → Prop
  | .insert d => 0 ≤ (t.insert (some d)).1.toInt →
      isSimulated (t.insert (some d)).1 = true ∧ t.live (t.insert (some d)).1 = none
  | _ => True

theorem handsOutFree_of_inv {t : Table δ} {op : FdOp δ} (inv : Inv t) :
    HandsOutFree t op := by
  cases op with
  | get fd => trivial
  | close fd => trivial
  | insert d =>
    intro accepted
    rcases t.insert_cases (some d) with ⟨fd, rest, free, result⟩ | ⟨_, _, result⟩ |
      ⟨drained, room, result⟩
    · have member : fd ∈ t.unused := by
        rw [free]
        exact List.mem_append_right _ (List.mem_singleton_self fd)
      obtain ⟨i, _, _, same⟩ := inv.issued fd (Or.inl member)
      rw [result]
      exact ⟨same ▸ isSimulated_simulatedFd i, inv.closed fd member⟩
    · rw [result] at accepted
      exact absurd accepted refused_negative
    · rw [result]
      refine ⟨isSimulated_simulatedFd _, ?_⟩
      by_contra used
      obtain ⟨i, below, small, same⟩ := inv.issued (simulatedFd t.size)
        (Or.inr (Option.isSome_iff_ne_none.mpr used))
      rw [numbers, drained, List.toFinset_nil, Finset.union_empty] at below
      have limit : capacity < 2 ^ 30 := by decide
      have index := simulatedFd_inj (by omega) (by omega) same
      have count : t.size = t.table.keys.card := rfl
      omega

/-- A live descriptor stays behind its number through every call but its close. -/
theorem live_step {t : Table δ} {op : FdOp δ} {fd : CInt} {d : δ} (inv : Inv t)
    (used : t.live fd = some d) (notClosed : op ≠ .close fd) :
    (step t op).2.live fd = some d := by
  cases op with
  | get a =>
    have same := (t.get_spec a).2.1
    change (t.get a).2.live fd = some d
    rw [same, used]
  | close a =>
    have different : fd ≠ a := fun e => notClosed (e ▸ rfl)
    change (t.close a).2.live fd = some d
    cases target : t.live a with
    | none =>
      simp only [close, target]
      exact used
    | some _ =>
      simp only [close, target]
      rw [live_erase_ne different]
      exact used
  | insert b =>
    have free : HandsOutFree t (.insert b) := handsOutFree_of_inv inv
    have apart : ∀ (a : CInt) (u : List CInt), t.live a = none →
        (Table.mk (t.table.insert a (some b)) u).live fd = some d := by
      intro a u empty
      have different : fd ≠ a := by
        rintro rfl
        rw [empty] at used
        cases used
      rw [live_insert_ne different]
      exact used
    change (t.insert (some b)).2.live fd = some d
    rcases t.insert_cases (some b) with ⟨a, rest, freeList, result⟩ | ⟨_, _, result⟩ |
      ⟨drained, room, result⟩
    · rw [result]
      apply apart
      apply inv.closed
      rw [freeList]
      exact List.mem_append_right _ (List.mem_singleton_self a)
    · rw [result]
      exact used
    · rw [HandsOutFree, result] at free
      rw [result]
      exact apart _ _ (free (simulatedFd_nonneg room)).2

end Table

open Table

/-- Along the whole run no insert hands out a number in use, and a number handed out
keeps resolving to the same descriptor as long as it is not closed. -/
def FreshAndStable (ops : List (FdOp δ)) : Prop :=
  Along step HandsOutFree empty ops ∧
    ∀ before d after, ops = before ++ .insert d :: after →
      0 ≤ ((run step empty before).insert (some d)).1.toInt →
      .close ((run step empty before).insert (some d)).1 ∉ after →
        ((run step empty ops).get ((run step empty before).insert (some d)).1).1 = some d

theorem live_run {t : Table δ} {ops : List (FdOp δ)} {fd : CInt} {d : δ} (inv : Inv t)
    (used : t.live fd = some d) (notClosed : .close fd ∉ ops)
    (clear : Along step Unsquatted t ops) : (run step t ops).live fd = some d := by
  induction ops generalizing t with
  | nil => exact used
  | cons op rest ih =>
    have here : op ≠ .close fd := fun e => notClosed (e ▸ List.mem_cons_self)
    exact ih (inv_step inv clear.1) (live_step inv used here)
      (fun h => notClosed (List.mem_cons_of_mem op h)) clear.2

/-- The slot an insert fills answers with the new descriptor. -/
theorem live_insert {t : Table δ} {d : δ} (accepted : 0 ≤ (t.insert (some d)).1.toInt) :
    (t.insert (some d)).2.live (t.insert (some d)).1 = some d := by
  rcases t.insert_cases (some d) with ⟨fd, rest, _, result⟩ | ⟨_, _, result⟩ | ⟨_, _, result⟩
  · rw [result, live_insert_self]
  · rw [result] at accepted
    exact absurd accepted refused_negative
  · rw [result, live_insert_self]

theorem insert_fresh {t : Table δ} (drained : t.unused = []) (room : t.size < capacity)
    (d : Option δ) :
    t.insert d = (simulatedFd t.size, ⟨t.table.insert (simulatedFd t.size) d, []⟩) := by
  rcases t.insert_cases d with ⟨fd, rest, free, _⟩ | ⟨_, full, _⟩ | ⟨_, _, result⟩
  · rw [drained] at free
    exact absurd free.symm (List.append_ne_nil_of_right_ne_nil rest (List.cons_ne_nil fd []))
  · omega
  · exact result

/-- A fresh number that is already a key is handed out twice in a row, because
filling its null entry does not change the size it was computed from. -/
theorem squatted_collides {t : Table δ} (drained : t.unused = []) (room : t.size < capacity)
    (squatted : simulatedFd t.size ∈ t.table) (d e : δ) :
    ¬Along step HandsOutFree t [.insert d, .insert e] := by
  have first := insert_fresh drained room (some d)
  have present : simulatedFd t.size ∈ t.table.keys := Finmap.mem_keys.mpr squatted
  have sameSize :
      (Table.mk (t.table.insert (simulatedFd t.size) (some d)) []).size = t.size := by
    rw [size, keys_insert, Finset.insert_eq_of_mem present, size]
  have second : ((t.insert (some d)).2.insert (some e)).1 = simulatedFd t.size := by
    rw [first, insert_fresh rfl (by rw [sameSize]; exact room), sameSize]
  rintro ⟨_, again, _⟩
  have free := (again (second ▸ simulatedFd_nonneg room)).2
  change (t.insert (some d)).2.live ((t.insert (some d)).2.insert (some e)).1 = none at free
  rw [second, first, live_insert_self] at free
  cases free

/-- In a run no insert of which finds its fresh number already in the table, every
number handed out is free and stays with its descriptor until it is closed. Once a
fresh number is in the table, two more inserts hand it out twice. -/
theorem unsquatted_fresh_and_stable (ops : List (FdOp δ)) :
    (Along step Unsquatted empty ops → FreshAndStable ops) ∧
      ((run step empty ops).unused = [] → (run step empty ops).size < capacity →
        simulatedFd (run step empty ops).size ∈ (run step empty ops).table →
          ∀ d e, ¬FreshAndStable (ops ++ [.insert d, .insert e])) := by
  constructor
  · intro clear
    constructor
    · exact along_of_invariant Inv (fun _ _ inv h => inv_step inv h)
        (fun _ _ inv _ => handsOutFree_of_inv inv) inv_empty clear
    · intro before d after split accepted notClosed
      rw [split] at clear
      obtain ⟨front, here, back⟩ := (along_append _ _ _).mp clear
      have inv := run_invariant Inv (fun _ _ inv h => inv_step inv h) inv_empty front
      rw [split, run_append, run_cons, (get_spec _ _).1]
      exact live_run (inv_step inv here) (live_insert accepted) notClosed back
  · intro drained room squatted d e good
    exact squatted_collides drained room squatted d e ((along_append _ _ _).mp good.1).2

/-- A lookup of the second number, made before anything is open: the first insert
fills its null entry and the second one is handed the same number again. -/
theorem lookup_ahead_collides :
    ¬FreshAndStable [FdOp.get (simulatedFd 1), .insert 10, .insert 11] := by
  rintro ⟨⟨_, _, again, _⟩, _⟩
  revert again
  unfold HandsOutFree
  decide

/-- Two descriptors, one of them closed and replaced, with lookups of a closed number. -/
theorem fresh_and_stable_reuse :
    FreshAndStable [FdOp.insert 10, .insert 11, .close (simulatedFd 0), .get (simulatedFd 0),
      .get (-1), .insert 12] :=
  (unsquatted_fresh_and_stable _).1
    ⟨fun _ _ => by decide, fun _ _ => by decide, trivial, trivial, trivial,
      fun drained => absurd drained (by decide), trivial⟩

end FdTable
