import Redstone.ChildMemory

/-!
# The callbacks for buffers in fragments

A callback made by `store_fragment_callback` or `load_fragment_callback` captures an
address and adds to it what the runner returns. The runner returns zero for success and
not a count of bytes, so every fragment is transferred at the first address.
-/

namespace FragmentCallbacks

open MachineWords ByteWindows ChildMemory

/-- One call of a callback from `store_fragment_callback`: the result, the fragment as it
is filled and the captured address after the call. -/
def storeFragment (memory : Memory) (addr : U64) (fragment : List Byte) :
    CInt × List Byte × U64 :=
  let (res, filled) := readMemory memory addr fragment
  (res, filled, if 0 ≤ res.toInt then addr + res.signExtend 64 else addr)

/-- One call of a callback from `load_fragment_callback`. -/
def loadFragment (memory : Memory) (addr : U64) (fragment : List Byte) : CInt × Memory × U64 :=
  let (res, memory) := writeMemory memory addr fragment
  (res, memory, if 0 ≤ res.toInt then addr + res.signExtend 64 else addr)

/-- The fragments that the calls of one callback fill. -/
def storeFragments (memory : Memory) : (addr : U64) → List (List Byte) → List (List Byte)
  | _, [] => []
  | addr, fragment :: rest =>
    let (_, filled, addr) := storeFragment memory addr fragment
    filled :: storeFragments memory addr rest

/-- The memory that the calls of one callback leave. -/
def loadFragments : (memory : Memory) → (addr : U64) → List (List Byte) → Memory
  | memory, _, [] => memory
  | memory, addr, fragment :: rest =>
    let (_, memory, addr) := loadFragment memory addr fragment
    loadFragments memory addr rest

/-! ## What a transfer of the whole buffer would be -/

/-- The bytes of the words that a transfer of `n` bytes touches. -/
def touched (n : Nat) : Nat := 8 * ((n + 7) / 8)

/-- All words that fragments one behind the other touch are mapped. -/
def AllTouched (m : Memory) : (at' : U64) → List (List Byte) → Prop
  | _, [] => True
  | at', fragment :: rest =>
    Mapped m at' (touched fragment.length) ∧
      AllTouched m (at' + BitVec.ofNat 64 fragment.length) rest

/-- The filled fragments are the child's memory from `ptr` on. -/
def StoreWalks (m : Memory) (ptr : U64) (fragments : List (List Byte)) : Prop :=
  (storeFragments m ptr fragments).flatten.map some = window m ptr fragments.flatten.length

/-- The child's memory holds the fragments from `ptr` on, and else what it held before. -/
def LoadWalks (m : Memory) (ptr : U64) (fragments : List (List Byte)) : Prop :=
  loadFragments m ptr fragments = overlay m ptr (fragments.flatten.map some)

/-- Each fragment of a buffer at `at'` stands in the memory at `ptr` as well. -/
def Repeats (m : Memory) (ptr : U64) : (at' : U64) → List (List Byte) → Prop
  | _, [] => True
  | at', fragment :: rest =>
    window m at' fragment.length = window m ptr fragment.length ∧
      Repeats m ptr (at' + BitVec.ofNat 64 fragment.length) rest

/-- Each byte of the concatenation is that of the last fragment that is long enough to
have one at its index, or, if none is, in the memory already. -/
def Stacks (m : Memory) (ptr : U64) (fragments : List (List Byte)) : Prop :=
  ∀ i b, fragments.flatten[i]? = some b → topmost fragments i = some b ∨
    topmost fragments i = none ∧ m (ptr + BitVec.ofNat 64 i) = some b

/-! ## The address stays where it is -/

theorem storeFragment_eq (m : Memory) (addr : U64) (fragment : List Byte) :
    storeFragment m addr fragment = (0, (readMemory m addr fragment).2, addr) := by
  have zero := readMemory_zero m addr fragment
  simp only [storeFragment, zero]
  simp

theorem loadFragment_eq (m : Memory) (addr : U64) (fragment : List Byte) :
    loadFragment m addr fragment = (0, (writeMemory m addr fragment).2, addr) := by
  have zero := writeMemory_zero m addr fragment
  simp only [loadFragment, zero]
  simp

theorem mapped_le {m : Memory} {ptr : U64} {a b : Nat} (shorter : a ≤ b) (mapped : Mapped m ptr b) :
    Mapped m ptr a :=
  fun i hi => mapped i (by omega)

theorem le_touched (n : Nat) : n ≤ touched n := by
  rw [touched]
  omega

theorem tailMapped_of_touched {m : Memory} {ptr : U64} {n : Nat}
    (mapped : Mapped m ptr (touched n)) : TailMapped m ptr n := by
  by_cases whole : n % 8 = 0
  · exact Or.inl whole
  · have words : touched n = tailStart n + 8 := by
      rw [touched, tailStart]
      omega
    rw [words, mapped_add] at mapped
    exact Or.inr mapped.2

/-- Words touched behind a mapped range are mapped from its start on. -/
theorem mapped_of_allTouched {m : Memory} {ptr : U64} {fragments : List (List Byte)} {k : Nat}
    (front : Mapped m ptr k) (all : AllTouched m (ptr + BitVec.ofNat 64 k) fragments) :
    ∀ fragment ∈ fragments, Mapped m ptr (touched fragment.length) := by
  induction fragments generalizing k with
  | nil =>
    intro fragment member
    cases member
  | cons first rest ih =>
    obtain ⟨here, later⟩ := all
    have whole := mapped_add.mpr ⟨front, here⟩
    rw [add_ofNat_add] at later
    have behind := ih (mapped_le (Nat.add_le_add_left (le_touched _) k) whole) later
    exact List.forall_mem_cons.mpr ⟨mapped_le (Nat.le_add_left _ k) whole, behind⟩

/-! ## Fragments that are filled -/

theorem readMemory_touched {m : Memory} {ptr : U64} {fragment : List Byte}
    (mapped : Mapped m ptr (touched fragment.length)) :
    (readMemory m ptr fragment).2.map some = window m ptr fragment.length := by
  have content := window_of_mapped (mapped_le (le_touched _) mapped)
  have length : ((window m ptr fragment.length).map fun cell => cell.getD 0).length =
      fragment.length := by
    rw [List.length_map, length_window]
  rw [readMemory_mapped content, delivered_all, ← content]
  rw [length]
  exact tailMapped_of_touched mapped

theorem storeFragments_map {m : Memory} {ptr : U64} {fragments : List (List Byte)}
    (mapped : ∀ fragment ∈ fragments, Mapped m ptr (touched fragment.length)) :
    (storeFragments m ptr fragments).flatten.map some =
      (fragments.map fun fragment => window m ptr fragment.length).flatten := by
  induction fragments with
  | nil => rfl
  | cons first rest ih =>
    obtain ⟨here, later⟩ := List.forall_mem_cons.mp mapped
    simp only [storeFragments, storeFragment_eq, List.flatten_cons, List.map_append,
      List.map_cons, readMemory_touched here, ih later]

theorem windows_iff_repeats {m : Memory} {ptr at' : U64} {fragments : List (List Byte)} :
    (fragments.map fun fragment => window m ptr fragment.length).flatten =
        window m at' fragments.flatten.length ↔ Repeats m ptr at' fragments := by
  induction fragments generalizing at' with
  | nil => exact iff_of_true rfl trivial
  | cons first rest ih =>
    rw [List.map_cons, List.flatten_cons, List.flatten_cons, List.length_append, window_add,
      Repeats, ← ih, eq_comm (a := window m at' first.length)]
    constructor
    · intro same
      exact List.append_inj same (by rw [length_window, length_window])
    · rintro ⟨here, later⟩
      rw [here, later]

/-! ## Fragments that are written -/

theorem writeMemory_touched {m : Memory} {ptr : U64} {fragment : List Byte}
    (fits : fragment.length ≤ 2 ^ 64) (mapped : Mapped m ptr (touched fragment.length)) :
    (writeMemory m ptr fragment).2 = overlay m ptr (fragment.map some) := by
  rw [writeMemory_mapped fits (mapped_le (le_touched _) mapped),
    stored_all (tailMapped_of_touched mapped)]

theorem loadFragments_stack {m : Memory} {ptr : U64} {fragments : List (List Byte)}
    (fits : ∀ fragment ∈ fragments, fragment.length ≤ 2 ^ 64)
    (mapped : ∀ fragment ∈ fragments, Mapped m ptr (touched fragment.length)) :
    loadFragments m ptr fragments = stack m ptr (fragments.map (List.map some)) := by
  induction fragments generalizing m with
  | nil => rfl
  | cons first rest ih =>
    obtain ⟨here, later⟩ := List.forall_mem_cons.mp mapped
    obtain ⟨small, others⟩ := List.forall_mem_cons.mp fits
    simp only [loadFragments, loadFragment_eq, writeMemory_touched small here]
    exact ih others fun fragment member => mapped_overlay _ (later fragment member)

theorem stack_iff_stacks {m : Memory} {ptr : U64} {fragments : List (List Byte)}
    (fits : fragments.flatten.length ≤ 2 ^ 64) :
    stack m ptr (fragments.map (List.map some)) = overlay m ptr (fragments.flatten.map some) ↔
      Stacks m ptr fragments := by
  have top : ∀ a, stack m ptr (fragments.map (List.map some)) a =
      ((topmost fragments (a - ptr).toNat).map some).getD (m a) := by
    intro a
    rw [stack_apply, topmost_map]
  constructor
  · intro same i b here
    obtain ⟨inside, -⟩ := List.getElem?_eq_some_iff.mp here
    have cell := congrFun same (ptr + BitVec.ofNat 64 i)
    rw [top, offset_toNat ptr (by omega), overlay, offset_toNat ptr (by omega),
      List.getElem?_map, here] at cell
    cases last : topmost fragments i with
    | none =>
      rw [last] at cell
      exact Or.inr ⟨rfl, cell⟩
    | some c =>
      rw [last] at cell
      exact Or.inl cell
  · intro piled
    funext a
    rw [top, overlay, List.getElem?_map]
    cases here : fragments.flatten[(a - ptr).toNat]? with
    | none =>
      rw [topmost_beyond (List.getElem?_eq_none_iff.mp here)]
    | some b =>
      rcases piled _ b here with last | ⟨none, held⟩
      · rw [last]
      · rw [none]
        rw [add_offset] at held
        exact held

/-! ## One fragment that is not empty -/

theorem filter_nonempty_cons {first : List Byte} {rest : List (List Byte)}
    (single : ((first :: rest).filter fun fragment => fragment ≠ []).length ≤ 1) :
    first = [] ∧ (rest.filter fun fragment => fragment ≠ []).length ≤ 1 ∨
      rest.flatten = [] := by
  by_cases empty : first = []
  · refine Or.inl ⟨empty, ?_⟩
    simpa [empty] using single
  · refine Or.inr ?_
    simpa [empty] using single

theorem repeats_of_empty {m : Memory} {ptr at' : U64} {fragments : List (List Byte)}
    (empty : fragments.flatten = []) : Repeats m ptr at' fragments := by
  induction fragments generalizing at' with
  | nil => trivial
  | cons first rest ih =>
    obtain ⟨rfl, later⟩ := List.append_eq_nil_iff.mp empty
    exact ⟨rfl, ih later⟩

/-- With at most one fragment that is not empty nothing can go wrong. -/
theorem coincides_of_single (m : Memory) (ptr : U64) {fragments : List (List Byte)}
    (single : (fragments.filter fun fragment => fragment ≠ []).length ≤ 1) :
    Repeats m ptr ptr fragments ∧ Stacks m ptr fragments := by
  have last : ∀ i, topmost fragments i = fragments.flatten[i]? := by
    intro i
    induction fragments with
    | nil => rfl
    | cons first rest ih =>
      rw [topmost_cons, List.flatten_cons]
      rcases filter_nonempty_cons single with ⟨rfl, fewer⟩ | empty
      · rw [ih fewer, List.getElem?_nil, Option.or_none, List.nil_append]
      · rw [topmost_beyond (by rw [empty]; exact Nat.zero_le i), empty, Option.none_or,
          List.append_nil]
  refine ⟨?_, fun i b here => Or.inl ((last i).trans here)⟩
  induction fragments with
  | nil => trivial
  | cons first rest ih =>
    rcases filter_nonempty_cons single with ⟨rfl, fewer⟩ | empty
    · refine ⟨rfl, ?_⟩
      rw [List.length_nil, BitVec.add_zero]
      exact ih fewer (fun i => by simpa [topmost_cons] using last i)
    · exact ⟨rfl, repeats_of_empty empty⟩

/-! ## The two callbacks -/

theorem mapped_start {m : Memory} {ptr : U64} {fragments : List (List Byte)}
    (mapped : AllTouched m ptr fragments) :
    ∀ fragment ∈ fragments, Mapped m ptr (touched fragment.length) := by
  have start : AllTouched m (ptr + BitVec.ofNat 64 0) fragments := by
    rwa [BitVec.add_zero]
  exact mapped_of_allTouched (fun i none => absurd none (Nat.not_lt_zero i)) start

theorem storeWalks_iff {m : Memory} {ptr : U64} {fragments : List (List Byte)}
    (mapped : AllTouched m ptr fragments) :
    StoreWalks m ptr fragments ↔ Repeats m ptr ptr fragments := by
  rw [StoreWalks, storeFragments_map (mapped_start mapped)]
  exact windows_iff_repeats

theorem loadWalks_iff {m : Memory} {ptr : U64} {fragments : List (List Byte)}
    (mapped : AllTouched m ptr fragments) (fits : fragments.flatten.length ≤ 2 ^ 64) :
    LoadWalks m ptr fragments ↔ Stacks m ptr fragments := by
  have sizes : ∀ fragment ∈ fragments, fragment.length ≤ 2 ^ 64 := fun fragment member =>
    Nat.le_trans (List.sublist_flatten_of_mem member).length_le fits
  rw [LoadWalks, loadFragments_stack sizes (mapped_start mapped)]
  exact stack_iff_stacks fits

/-- For every memory with the touched words mapped and all fragments: the callback of
`store_fragment_callback` walks the buffer exactly if each fragment's bytes stand at the
first address too, and that of `load_fragment_callback` exactly if the fragments put on top
of each other give their concatenation. Both are so with one fragment that is not empty. -/
theorem fragments_walk_iff {m : Memory} {ptr : U64} {fragments : List (List Byte)}
    (mapped : AllTouched m ptr fragments) :
    (StoreWalks m ptr fragments ↔ Repeats m ptr ptr fragments) ∧
      (fragments.flatten.length ≤ 2 ^ 64 →
        (LoadWalks m ptr fragments ↔ Stacks m ptr fragments)) ∧
      ((fragments.filter fun fragment => fragment ≠ []).length ≤ 1 →
        Repeats m ptr ptr fragments ∧ Stacks m ptr fragments) :=
  ⟨storeWalks_iff mapped, loadWalks_iff mapped, coincides_of_single m ptr⟩

/-- Memory full of sevens. -/
theorem fragments_walk_sevens :
    StoreWalks (total fun _ => 7) 0 [[7], [7]] ∧ LoadWalks (total fun _ => 7) 0 [[7], [7]] := by
  have mapped : AllTouched (total fun _ => 7) 0 [[7], [7]] :=
    ⟨mapped_total _ _ _, mapped_total _ _ _, trivial⟩
  have laws := fragments_walk_iff mapped
  refine ⟨laws.1.mpr ⟨rfl, rfl, trivial⟩, (laws.2.1 (by decide)).mpr ?_⟩
  intro i b here
  match i with
  | 0 => exact Or.inl here
  | 1 => exact Or.inr ⟨rfl, here⟩

/-- Two fragments of one byte each, where the memory holds 0, 1 at the first two
addresses, and the data 1, 2 for them. -/
theorem two_fragments_overlap :
    AllTouched (total fun a => a.setWidth 8) 0 [[1], [2]] ∧
      ¬StoreWalks (total fun a => a.setWidth 8) 0 [[1], [2]] ∧
      ¬LoadWalks (total fun a => a.setWidth 8) 0 [[1], [2]] := by
  have mapped : AllTouched (total fun a => a.setWidth 8) 0 [[1], [2]] :=
    ⟨mapped_total _ _ _, mapped_total _ _ _, trivial⟩
  refine ⟨mapped, ?_, ?_⟩
  · intro walks
    have repeats := (storeWalks_iff mapped).mp walks
    exact absurd repeats.2.1 (by decide)
  · intro walks
    rcases (loadWalks_iff mapped (by decide)).mp walks 0 1 rfl with last | ⟨none, -⟩
    · exact absurd last (by decide)
    · exact absurd none (by decide)

end FragmentCallbacks
