import Redstone.ByteWindows
import Redstone.MachineWords

/-!
# Memory of a traced child

`write_memory` and `read_memory` move whole words through `PTRACE_POKEDATA` and
`PTRACE_PEEKDATA` and patch a tail of fewer than eight bytes into a word read first. A
word access fails unless all eight bytes are mapped; a failed peek yields -1. Neither
function looks at the result of a call.
-/

namespace ChildMemory

open MachineWords ByteWindows

/-- An unmapped byte is `none`. -/
abbrev Memory := U64 → Option Byte

def Mapped (m : Memory) (ptr : U64) (n : Nat) : Prop :=
  ∀ i < n, (m (ptr + BitVec.ofNat 64 i)).isSome

instance (m : Memory) (ptr : U64) (n : Nat) : Decidable (Mapped m ptr n) :=
  inferInstanceAs (Decidable (∀ i < n, (m (ptr + BitVec.ofNat 64 i)).isSome))

/-- `PTRACE_PEEKDATA`. -/
def peek (m : Memory) (ptr : U64) : U64 :=
  if Mapped m ptr 8 then ofBytes ((window m ptr 8).map fun cell => cell.getD 0) else -1

/-- `PTRACE_POKEDATA`. -/
def poke (m : Memory) (ptr : U64) (word : U64) : Memory :=
  if Mapped m ptr 8 then overlay m ptr ((bytesOf word).map some) else m

def writeMemory (m : Memory) (ptr : U64) (data : List Byte) : CInt × Memory :=
  if 8 ≤ data.length then
    writeMemory (poke m ptr (ofBytes (data.take 8))) (ptr + 8) (data.drop 8)
  else if data = [] then (0, m)
  else
    let word := setBytes (peek m ptr) data
    (0, poke m ptr word)
termination_by data.length
decreasing_by rw [List.length_drop]; omega

/-- The span is overwritten from its front; only its length matters. -/
def readMemory (m : Memory) (ptr : U64) (data : List Byte) : CInt × List Byte :=
  if 8 ≤ data.length then
    let (res, rest) := readMemory m (ptr + 8) (data.drop 8)
    (res, bytesOf (peek m ptr) ++ rest)
  else if data = [] then (0, [])
  else (0, (bytesOf (peek m ptr)).take data.length)
termination_by data.length
decreasing_by rw [List.length_drop]; omega

/-! ## Ranges that are mapped -/

/-- Where the bytes that do not fill a word start. -/
def tailStart (n : Nat) : Nat := 8 * (n / 8)

/-- The word that the last bytes of a range lie in is mapped, if there is one. -/
def TailMapped (m : Memory) (ptr : U64) (n : Nat) : Prop :=
  n % 8 = 0 ∨ Mapped m (ptr + BitVec.ofNat 64 (tailStart n)) 8

instance (m : Memory) (ptr : U64) (n : Nat) : Decidable (TailMapped m ptr n) :=
  inferInstanceAs (Decidable (_ ∨ _))

theorem mapped_add {m : Memory} {ptr : U64} {a b : Nat} :
    Mapped m ptr (a + b) ↔ Mapped m ptr a ∧ Mapped m (ptr + BitVec.ofNat 64 a) b := by
  constructor
  · intro mapped
    refine ⟨fun i hi => mapped i (by omega), ?_⟩
    intro i hi
    rw [add_ofNat_add]
    exact mapped (a + i) (by omega)
  · rintro ⟨front, back⟩ i hi
    by_cases early : i < a
    · exact front i early
    · have later := back (i - a) (by omega)
      rwa [add_ofNat_add, Nat.add_sub_cancel' (Nat.le_of_not_lt early)] at later

theorem mapped_of_window {m : Memory} {ptr : U64} {n : Nat} {bytes : List Byte}
    (content : window m ptr n = bytes.map some) : Mapped m ptr n := by
  intro i hi
  have here := getElem?_window (m := m) (p := ptr) hi
  rw [content, List.getElem?_map] at here
  obtain ⟨b, _, same⟩ := Option.map_eq_some_iff.mp here
  rw [← same]
  rfl

theorem window_of_mapped {m : Memory} {ptr : U64} {n : Nat} (mapped : Mapped m ptr n) :
    window m ptr n = ((window m ptr n).map fun cell => cell.getD 0).map some := by
  rw [List.map_map]
  apply List.ext_getElem?
  intro i
  rw [List.getElem?_map]
  by_cases inside : i < n
  · obtain ⟨b, found⟩ := Option.isSome_iff_exists.mp (mapped i inside)
    rw [getElem?_window inside, found]
    rfl
  · rw [List.getElem?_eq_none (by rw [length_window]; omega)]
    rfl

/-- Storing bytes unmaps nothing and maps nothing outside of them. -/
theorem mapped_overlay {m : Memory} {ptr p : U64} {n : Nat} (data : List Byte)
    (mapped : Mapped m ptr n) : Mapped (overlay m p (data.map some)) ptr n := by
  intro i hi
  rcases overlay_cases m p (ptr + BitVec.ofNat 64 i) (data.map some) with new | old
  · obtain ⟨b, _, same⟩ := List.mem_map.mp new
    rw [← same]
    rfl
  · rw [old]
    exact mapped i hi

/-- Storing over a mapped range leaves the mapped addresses as they are. -/
theorem isSome_overlay {m : Memory} {p : U64} {data : List Byte} (mapped : Mapped m p data.length)
    (a : U64) : (overlay m p (data.map some) a).isSome = (m a).isSome := by
  by_cases inside : (a - p).toNat < data.length
  · have was := mapped _ inside
    rw [add_offset] at was
    rw [overlay, List.getElem?_map, List.getElem?_eq_getElem inside, was]
    rfl
  · rw [overlay, List.getElem?_map, List.getElem?_eq_none (Nat.le_of_not_lt inside)]
    rfl

theorem tailMapped_overlay {m : Memory} {p : U64} {data : List Byte}
    (mapped : Mapped m p data.length) (ptr : U64) (n : Nat) :
    TailMapped (overlay m p (data.map some)) ptr n ↔ TailMapped m ptr n := by
  simp only [TailMapped, Mapped, isSome_overlay mapped]

/-- One word further the same tail remains. -/
theorem tailMapped_step {m : Memory} {ptr : U64} {n : Nat} (whole : 8 ≤ n) :
    TailMapped m (ptr + BitVec.ofNat 64 8) (n - 8) ↔ TailMapped m ptr n := by
  have start : 8 + tailStart (n - 8) = tailStart n := by
    simp only [tailStart]
    omega
  have rest : (n - 8) % 8 = n % 8 := by omega
  rw [TailMapped, TailMapped, add_ofNat_add, start, rest]

theorem peek_mapped {m : Memory} {ptr : U64} {bytes : List Byte}
    (content : window m ptr 8 = bytes.map some) : bytesOf (peek m ptr) = bytes := by
  have eight : bytes.length = 8 := by
    rw [← List.length_map some, ← content, length_window]
  have values : (bytes.map some).map (fun cell : Option Byte => cell.getD 0) = bytes := by
    rw [List.map_map]
    exact List.map_id bytes
  rw [peek, if_pos (mapped_of_window content), content, values, bytesOf_ofBytes eight]

theorem peek_unmapped {m : Memory} {ptr : U64} (unmapped : ¬Mapped m ptr 8) :
    bytesOf (peek m ptr) = List.replicate 8 0xff := by
  rw [peek, if_neg unmapped]
  decide

theorem poke_mapped {m : Memory} {ptr word : U64} {bytes : List Byte} (mapped : Mapped m ptr 8)
    (spelled : bytesOf word = bytes) : poke m ptr word = overlay m ptr (bytes.map some) := by
  rw [poke, if_pos mapped, spelled]

theorem poke_unmapped {m : Memory} {ptr word : U64} (unmapped : ¬Mapped m ptr 8) :
    poke m ptr word = m := by
  rw [poke, if_neg unmapped]

/-! ## What the loops do to a mapped range -/

/-- The bytes that reach the memory: all of them, or all but the tail. -/
def stored (m : Memory) (ptr : U64) (data : List Byte) : List Byte :=
  if TailMapped m ptr data.length then data else data.take (tailStart data.length)

/-- The bytes that are read: those of the range, a tail that cannot be peeked being 0xff. -/
def delivered (m : Memory) (ptr : U64) (bytes : List Byte) : List Byte :=
  if TailMapped m ptr bytes.length then bytes
  else bytes.take (tailStart bytes.length) ++ List.replicate (bytes.length % 8) 0xff

theorem tailMapped_short (m : Memory) (ptr : U64) {n : Nat} (short : n < 8) (some : n ≠ 0) :
    TailMapped m ptr n ↔ Mapped m ptr 8 := by
  have start : tailStart n = 0 := by
    rw [tailStart]
    omega
  have rest : n % 8 ≠ 0 := by omega
  simp only [TailMapped, start, rest, false_or, BitVec.add_zero]

/-- The bytes of the first word and those stored behind it are those stored. -/
theorem stored_step {m : Memory} {ptr : U64} {data : List Byte} (whole : 8 ≤ data.length)
    (mapped : Mapped m ptr 8) :
    data.take 8 ++ stored (overlay m ptr ((data.take 8).map some)) (ptr + 8) (data.drop 8) =
      stored m ptr data := by
  have eight : (data.take 8).length = 8 := by
    rw [List.length_take]
    omega
  have tail : TailMapped (overlay m ptr ((data.take 8).map some)) (ptr + 8)
      (data.drop 8).length ↔ TailMapped m ptr data.length := by
    rw [tailMapped_overlay (by rwa [eight]), List.length_drop]
    exact tailMapped_step whole
  have start : tailStart data.length = 8 + tailStart (data.length - 8) := by
    simp only [tailStart]
    omega
  by_cases all : TailMapped m ptr data.length
  · rw [stored, stored, if_pos (tail.mpr all), if_pos all, List.take_append_drop]
  · rw [stored, stored, if_neg (fun h => all (tail.mp h)), if_neg all, List.length_drop, start,
      List.take_add]

/-- On a mapped range a write returns zero and stores the bytes, but for a tail whose
word is not mapped. -/
theorem writeMemory_mapped {m : Memory} {ptr : U64} {data : List Byte}
    (fits : data.length ≤ 2 ^ 64) (mapped : Mapped m ptr data.length) :
    writeMemory m ptr data = (0, overlay m ptr ((stored m ptr data).map some)) := by
  fun_induction writeMemory m ptr data with
  | case1 m ptr data whole ih =>
    have eight : (data.take 8).length = 8 := by
      rw [List.length_take]
      omega
    have split : data.length = 8 + (data.drop 8).length := by
      rw [List.length_drop]
      omega
    rw [split, mapped_add] at mapped
    rw [poke_mapped mapped.1 (bytesOf_ofBytes eight)] at ih ⊢
    have rest := ih (by omega) (mapped_overlay _ mapped.2)
    rw [rest, ← stored_step whole mapped.1, List.map_append, ← overlay_append]
    · rw [List.length_map, eight]
      rfl
    · rw [← List.map_append, stored_step whole mapped.1, List.length_map, stored]
      split
      · exact fits
      · rw [List.length_take]
        omega
  | case2 m ptr part =>
    rw [stored, List.take_nil, ite_self]
    rfl
  | case3 m ptr data part nonempty word =>
    have short : data.length < 8 := Nat.lt_of_not_le part
    have some : data.length ≠ 0 := fun zero => nonempty (List.length_eq_zero_iff.mp zero)
    have tail := tailMapped_short m ptr short some
    by_cases wordMapped : Mapped m ptr 8
    · have content := window_of_mapped wordMapped
      have old := peek_mapped content
      have spelled := bytesOf_setBytes (peek m ptr) (Nat.le_of_lt short)
      rw [old] at spelled
      rw [poke_mapped wordMapped spelled, stored, if_pos (tail.mpr wordMapped), List.map_append,
        List.map_drop, ← content, ← List.length_map Option.some, overlay_padded]
    · have start : tailStart data.length = 0 := by
        rw [tailStart]
        omega
      rw [poke_unmapped wordMapped, stored, if_neg (fun h => wordMapped (tail.mp h)), start]
      rfl

/-- The first word and what is delivered behind it are what is delivered. -/
theorem delivered_step {m : Memory} {ptr : U64} {bytes : List Byte} (whole : 8 ≤ bytes.length) :
    bytes.take 8 ++ delivered m (ptr + 8) (bytes.drop 8) = delivered m ptr bytes := by
  have tail : TailMapped m (ptr + 8) (bytes.drop 8).length ↔ TailMapped m ptr bytes.length := by
    rw [List.length_drop]
    exact tailMapped_step whole
  have start : tailStart bytes.length = 8 + tailStart (bytes.length - 8) := by
    simp only [tailStart]
    omega
  have rest : (bytes.length - 8) % 8 = bytes.length % 8 := by omega
  by_cases all : TailMapped m ptr bytes.length
  · rw [delivered, delivered, if_pos (tail.mpr all), if_pos all, List.take_append_drop]
  · rw [delivered, delivered, if_neg (fun h => all (tail.mp h)), if_neg all, List.length_drop,
      start, rest, List.take_add, List.append_assoc]

/-- On a mapped range a read returns zero and delivers the bytes, but for a tail whose
word is not mapped. -/
theorem readMemory_mapped {m : Memory} {ptr : U64} {buffer bytes : List Byte}
    (content : window m ptr buffer.length = bytes.map some) :
    readMemory m ptr buffer = (0, delivered m ptr bytes) := by
  have sizes := congrArg List.length content
  rw [length_window, List.length_map] at sizes
  fun_induction readMemory m ptr buffer generalizing bytes with
  | case1 ptr buffer whole res rest read ih =>
    have split : buffer.length = 8 + (buffer.drop 8).length := by
      rw [List.length_drop]
      omega
    have eight : (window m ptr 8).length = 8 := length_window m ptr 8
    rw [split, window_add] at content
    have front := congrArg (List.take 8) content
    have back := congrArg (List.drop 8) content
    rw [List.take_left' eight, ← List.map_take] at front
    rw [List.drop_left' eight, ← List.map_drop] at back
    have rest := ih back (by rw [List.length_drop, List.length_drop, sizes])
    rw [read] at rest
    obtain ⟨rfl, rfl⟩ := Prod.mk.inj rest
    rw [peek_mapped front, delivered_step (by omega)]
  | case2 ptr part =>
    obtain rfl : bytes = [] := List.length_eq_zero_iff.mp sizes.symm
    rw [delivered, List.take_nil, List.length_nil]
    rfl
  | case3 ptr buffer part nonempty =>
    have short : bytes.length < 8 := by omega
    have some : bytes.length ≠ 0 := by
      rw [← sizes]
      exact fun zero => nonempty (List.length_eq_zero_iff.mp zero)
    have tail := tailMapped_short m ptr short some
    by_cases wordMapped : Mapped m ptr 8
    · have word := window_of_mapped wordMapped
      have front := congrArg (List.take buffer.length) word
      rw [window_take (by omega), content, ← List.map_take] at front
      have same := List.map_injective_iff.mpr (Option.some_injective Byte) front
      rw [delivered, if_pos (tail.mpr wordMapped), peek_mapped word, same]
    · have start : tailStart bytes.length = 0 := by
        rw [tailStart]
        omega
      rw [delivered, if_neg (fun h => wordMapped (tail.mp h)), peek_unmapped wordMapped, start,
        List.take_replicate, Nat.min_eq_left (by omega), Nat.mod_eq_of_lt short, sizes]
      rfl

theorem stored_all {m : Memory} {ptr : U64} {data : List Byte}
    (tail : TailMapped m ptr data.length) : stored m ptr data = data := by
  rw [stored, if_pos tail]

theorem delivered_all {m : Memory} {ptr : U64} {bytes : List Byte}
    (tail : TailMapped m ptr bytes.length) : delivered m ptr bytes = bytes := by
  rw [delivered, if_pos tail]

/-! ## Memory with every byte mapped -/

def total (m : U64 → Byte) : Memory := fun a => some (m a)

theorem mapped_total (m : U64 → Byte) (ptr : U64) (n : Nat) : Mapped (total m) ptr n :=
  fun _ _ => rfl

theorem readMemory_total (m : U64 → Byte) (ptr : U64) (buffer : List Byte) :
    readMemory (total m) ptr buffer = (0, window m ptr buffer.length) := by
  have content : window (total m) ptr buffer.length = (window m ptr buffer.length).map some :=
    window_map some m ptr buffer.length
  rw [readMemory_mapped content, delivered_all (Or.inr (mapped_total m _ 8))]

theorem writeMemory_total {m : U64 → Byte} {ptr : U64} {data : List Byte}
    (fits : data.length ≤ 2 ^ 64) :
    writeMemory (total m) ptr data = (0, total (overlay m ptr data)) := by
  rw [writeMemory_mapped fits (mapped_total m ptr _),
    stored_all (Or.inr (mapped_total m _ 8))]
  exact congrArg (Prod.mk 0) (overlay_map some m ptr data)

/-- A write puts the data at its address and changes no other byte, a read delivers what
is there, and so a read after the write delivers the data. -/
theorem memory_byte_exact (m : U64 → Byte) (ptr : U64) (data : List Byte)
    (fits : data.length ≤ 2 ^ 64) :
    ∃ after : U64 → Byte, writeMemory (total m) ptr data = (0, total after) ∧
      (∀ i b, data[i]? = some b → after (ptr + BitVec.ofNat 64 i) = b) ∧
      (∀ a, (∀ i < data.length, a ≠ ptr + BitVec.ofNat 64 i) → after a = m a) ∧
      (∀ buffer, readMemory (total m) ptr buffer = (0, window m ptr buffer.length)) ∧
      ∀ buffer : List Byte, buffer.length = data.length →
        readMemory (total after) ptr buffer = (0, data) := by
  refine ⟨overlay m ptr data, writeMemory_total fits, ?_, ?_, readMemory_total m ptr, ?_⟩
  · intro i b here
    exact overlay_at fits here
  · intro a off
    exact overlay_off off
  · intro buffer same
    rw [readMemory_total, same, window_overlay fits]

/-- Eleven bytes at an odd address: a whole word and a tail of three. -/
theorem memory_byte_exact_tail :
    ∃ after : U64 → Byte,
      writeMemory (total fun _ => 7) 5 [1, 2, 3, 4, 5, 6, 7, 8, 9, 10, 11] = (0, total after) ∧
        after 15 = 11 ∧ after 16 = 7 := by
  obtain ⟨after, written, inside, outside, _⟩ :=
    memory_byte_exact (fun _ => 7) 5 [1, 2, 3, 4, 5, 6, 7, 8, 9, 10, 11] (by decide)
  exact ⟨after, written, inside 10 11 rfl, outside 16 (by decide)⟩

/-! ## Mapping boundaries -/

theorem readMemory_zero (m : Memory) (ptr : U64) (buffer : List Byte) :
    (readMemory m ptr buffer).1 = 0 := by
  fun_induction readMemory m ptr buffer with
  | case1 ptr buffer whole res rest read ih =>
    rw [read] at ih
    exact ih
  | case2 => rfl
  | case3 => rfl

theorem writeMemory_zero (m : Memory) (ptr : U64) (data : List Byte) :
    (writeMemory m ptr data).1 = 0 := by
  fun_induction writeMemory m ptr data with
  | case1 m ptr data whole ih => exact ih
  | case2 => rfl
  | case3 => rfl

/-- A read of `n` bytes returns zero with exactly the bytes of a mapped range, and a
negative value if some byte of the range is unmapped. -/
def ReadHonest (m : Memory) (ptr : U64) (n : Nat) : Prop :=
  ∀ buffer : List Byte, buffer.length = n →
    (∀ bytes, window m ptr n = bytes.map some → readMemory m ptr buffer = (0, bytes)) ∧
      (¬Mapped m ptr n → (readMemory m ptr buffer).1.toInt < 0)

/-- A write returns zero with exactly its bytes stored in a mapped range, and a negative
value if some byte of the range is unmapped. -/
def WriteHonest (m : Memory) (ptr : U64) (data : List Byte) : Prop :=
  (Mapped m ptr data.length → writeMemory m ptr data = (0, overlay m ptr (data.map some))) ∧
    (¬Mapped m ptr data.length → (writeMemory m ptr data).1.toInt < 0)

/-- Both functions report honestly about a range, whatever the data. -/
def Honest (m : Memory) (ptr : U64) (n : Nat) : Prop :=
  ReadHonest m ptr n ∧ ∀ data : List Byte, data.length = n → WriteHonest m ptr data

theorem mapped_of_readHonest {m : Memory} {ptr : U64} {n : Nat} (honest : ReadHonest m ptr n) :
    Mapped m ptr n := by
  by_contra unmapped
  have negative := (honest (List.replicate n 0) List.length_replicate).2 unmapped
  rw [readMemory_zero] at negative
  exact absurd negative (by decide)

theorem readHonest_of_tailMapped {m : Memory} {ptr : U64} {n : Nat} (mapped : Mapped m ptr n)
    (tail : TailMapped m ptr n) : ReadHonest m ptr n := by
  rintro buffer rfl
  refine ⟨?_, fun unmapped => absurd mapped unmapped⟩
  intro bytes content
  have sizes := congrArg List.length content
  rw [length_window, List.length_map] at sizes
  rw [readMemory_mapped content, delivered_all (sizes ▸ tail)]

theorem writeHonest_of_tailMapped {m : Memory} {ptr : U64} {data : List Byte}
    (fits : data.length ≤ 2 ^ 64) (mapped : Mapped m ptr data.length)
    (tail : TailMapped m ptr data.length) : WriteHonest m ptr data := by
  refine ⟨?_, fun unmapped => absurd mapped unmapped⟩
  intro _
  rw [writeMemory_mapped fits mapped, stored_all tail]

/-- A tail whose word is not mapped keeps its bytes, so not every data is stored. -/
theorem tailMapped_of_writeHonest {m : Memory} {ptr : U64} {n : Nat} (fits : n ≤ 2 ^ 64)
    (mapped : Mapped m ptr n)
    (honest : ∀ data : List Byte, data.length = n → WriteHonest m ptr data) :
    TailMapped m ptr n := by
  by_contra tail
  have part : n % 8 ≠ 0 := fun whole => tail (Or.inl whole)
  have start : tailStart n < n := by
    rw [tailStart]
    omega
  -- whatever is written, the first byte of the tail stays as it was
  have kept : ∀ b : Byte, m (ptr + BitVec.ofNat 64 (tailStart n)) = some b := by
    intro b
    have size : (List.replicate n b).length = n := List.length_replicate
    have fits' : (List.replicate n b).length ≤ 2 ^ 64 := by rwa [size]
    have mapped' : Mapped m ptr (List.replicate n b).length := by rwa [size]
    have written := writeMemory_mapped fits' mapped'
    rw [((honest _ size).1 (by rwa [size])), Prod.mk.injEq, stored, size, if_neg tail,
      List.take_replicate, Nat.min_eq_left (Nat.le_of_lt start)] at written
    have here := congrFun written.2 (ptr + BitVec.ofNat 64 (tailStart n))
    have new : ((List.replicate n b).map some)[tailStart n]? = some (some b) := by
      simp [start]
    rw [overlay_at (by simpa using fits) new, overlay_off] at here
    · exact here.symm
    · intro i hi same
      have inside : i < tailStart n := by simpa using hi
      have places := congrArg (fun a => (a - ptr).toNat) same
      rw [offset_toNat ptr (by omega), offset_toNat ptr (by omega)] at places
      omega
  have clash := (kept 0).symm.trans (kept 1)
  exact absurd (Option.some.inj clash) (by decide)

/-- A range is reported on honestly exactly if all its bytes are mapped and so is the
whole word that its last bytes lie in. -/
theorem honest_iff_mapped (m : Memory) (ptr : U64) (n : Nat) (fits : n ≤ 2 ^ 64) :
    Honest m ptr n ↔ Mapped m ptr n ∧ TailMapped m ptr n := by
  constructor
  · rintro ⟨read, write⟩
    have mapped := mapped_of_readHonest read
    exact ⟨mapped, tailMapped_of_writeHonest fits mapped write⟩
  · rintro ⟨mapped, tail⟩
    refine ⟨readHonest_of_tailMapped mapped tail, ?_⟩
    rintro data rfl
    exact writeHonest_of_tailMapped fits mapped tail

/-- Three mapped bytes at the end of a mapping are read as 0xff and not written, and an
unmapped byte is read and written without an error. -/
theorem boundary_misreported :
    ∃ m : Memory, Mapped m 0 3 ∧ readMemory m 0 [0, 0, 0] = (0, [0xff, 0xff, 0xff]) ∧
      writeMemory m 0 [1, 2, 3] = (0, m) ∧ ¬Honest m 0 3 ∧
      ¬Mapped m 3 1 ∧ readMemory m 3 [0] = (0, [0xff]) ∧ ¬Honest m 3 1 := by
  let m : Memory := fun a => if a < 3 then some 7 else none
  have mapped : Mapped m 0 3 := by decide
  have cut : ¬Mapped m 0 8 := by decide
  have unmapped : ¬Mapped m 3 1 := by decide
  refine ⟨m, mapped, ?_, ?_, ?_, unmapped, ?_, ?_⟩
  · rw [readMemory, if_neg (by decide), if_neg (by decide), peek_unmapped cut]
    rfl
  · rw [writeMemory, if_neg (by decide), if_neg (by decide)]
    exact congrArg (Prod.mk 0) (poke_unmapped cut)
  · rintro ⟨_, write⟩
    exact absurd (tailMapped_of_writeHonest (by decide) mapped write) (by decide)
  · rw [readMemory, if_neg (by decide), if_neg (by decide), peek_unmapped (by decide)]
    rfl
  · rintro ⟨read, _⟩
    exact unmapped (mapped_of_readHonest read)

/-- Twelve bytes at the start of a page of sixteen: the word of the tail is mapped. -/
theorem honest_inside_mapping :
    Honest (fun a => if a < 16 then some 7 else none) 0 12 :=
  (honest_iff_mapped _ 0 12 (by decide)).mpr (by decide)

end ChildMemory
