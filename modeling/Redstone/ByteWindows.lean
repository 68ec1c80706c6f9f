import Mathlib.Data.List.OfFn
import Mathlib.Data.BitVec

/-!
# Windows of a word-addressed memory

A memory is a function from machine addresses, which wrap around. Reading a window
lists consecutive cells and overlaying a list replaces them; both are stated for any
cells, so they serve total and partial memories. Eight-byte words are little-endian.
-/

namespace ByteWindows

universe u v
variable {w : Nat} {α : Type u} {β : Type v}

/-- The `n` cells from `p` on. -/
def window (m : BitVec w → α) (p : BitVec w) (n : Nat) : List α :=
  (List.range n).map fun i => m (p + BitVec.ofNat w i)

/-- The memory with the cells from `p` on replaced. -/
def overlay (m : BitVec w → α) (p : BitVec w) (cells : List α) : BitVec w → α :=
  fun a => cells[(a - p).toNat]?.getD (m a)

theorem offset_toNat {i : Nat} (p : BitVec w) (inside : i < 2 ^ w) :
    (p + BitVec.ofNat w i - p).toNat = i := by
  rw [BitVec.add_comm, BitVec.add_sub_cancel, BitVec.toNat_ofNat, Nat.mod_eq_of_lt inside]

theorem add_offset (a p : BitVec w) : p + BitVec.ofNat w (a - p).toNat = a := by
  rw [BitVec.ofNat_toNat, BitVec.setWidth_eq, BitVec.add_comm, BitVec.sub_add_cancel]

theorem add_ofNat_add (p : BitVec w) (i j : Nat) :
    p + BitVec.ofNat w i + BitVec.ofNat w j = p + BitVec.ofNat w (i + j) := by
  rw [BitVec.ofNat_add, BitVec.add_assoc]

@[simp] theorem length_window (m : BitVec w → α) (p : BitVec w) (n : Nat) :
    (window m p n).length = n := by
  rw [window, List.length_map, List.length_range]

theorem getElem?_window {m : BitVec w → α} {p : BitVec w} {n i : Nat} (inside : i < n) :
    (window m p n)[i]? = some (m (p + BitVec.ofNat w i)) := by
  rw [window, List.getElem?_map, List.getElem?_range inside, Option.map_some]

theorem window_add (m : BitVec w → α) (p : BitVec w) (a b : Nat) :
    window m p (a + b) = window m p a ++ window m (p + BitVec.ofNat w a) b := by
  simp only [window, List.range_add, List.map_append, List.map_map, Function.comp_def,
    add_ofNat_add]

theorem window_take {m : BitVec w → α} {p : BitVec w} {k n : Nat} (short : k ≤ n) :
    (window m p n).take k = window m p k := by
  rw [window, ← List.map_take, List.take_range, Nat.min_eq_left short, window]

theorem window_map (f : α → β) (m : BitVec w → α) (p : BitVec w) (n : Nat) :
    window (fun a => f (m a)) p n = (window m p n).map f := by
  simp only [window, List.map_map, Function.comp_def]

theorem overlay_at {m : BitVec w → α} {p : BitVec w} {cells : List α} {i : Nat} {c : α}
    (fits : cells.length ≤ 2 ^ w) (here : cells[i]? = some c) :
    overlay m p cells (p + BitVec.ofNat w i) = c := by
  obtain ⟨inside, _⟩ := List.getElem?_eq_some_iff.mp here
  rw [overlay, offset_toNat p (by omega), here, Option.getD_some]

theorem overlay_off {m : BitVec w → α} {p a : BitVec w} {cells : List α}
    (off : ∀ i < cells.length, a ≠ p + BitVec.ofNat w i) : overlay m p cells a = m a := by
  have outside : cells.length ≤ (a - p).toNat := by
    by_contra inside
    exact off _ (Nat.lt_of_not_le inside) (add_offset a p).symm
  rw [overlay, List.getElem?_eq_none outside, Option.getD_none]

/-- Each cell of an overlay is one of the new cells or the old one. -/
theorem overlay_cases (m : BitVec w → α) (p a : BitVec w) (cells : List α) :
    overlay m p cells a ∈ cells ∨ overlay m p cells a = m a := by
  cases found : cells[(a - p).toNat]? with
  | none =>
    rw [overlay, found]
    exact Or.inr rfl
  | some c =>
    rw [overlay, found]
    exact Or.inl (List.mem_of_getElem? found)

/-- Replacing two adjacent blocks in turn is replacing their concatenation. -/
theorem overlay_append {m : BitVec w → α} {p : BitVec w} {first second : List α}
    (fits : (first ++ second).length ≤ 2 ^ w) :
    overlay (overlay m p first) (p + BitVec.ofNat w first.length) second =
      overlay m p (first ++ second) := by
  rw [List.length_append] at fits
  funext a
  by_cases inFirst : (a - p).toNat < first.length
  · have off : ∀ i < second.length,
        a ≠ p + BitVec.ofNat w first.length + BitVec.ofNat w i := by
      rintro i hi rfl
      rw [add_ofNat_add, offset_toNat p (by omega)] at inFirst
      omega
    rw [overlay_off off]
    simp only [overlay, List.getElem?_append_left inFirst]
  · have shifted : (a - (p + BitVec.ofNat w first.length)).toNat =
        (a - p).toNat - first.length := by
      have small := (a - p).isLt
      rw [← BitVec.sub_sub, BitVec.toNat_sub, BitVec.toNat_ofNat,
        Nat.mod_eq_of_lt (by omega : first.length < 2 ^ w)]
      have wrap : 2 ^ w - first.length + (a - p).toNat =
          (a - p).toNat - first.length + 2 ^ w := by omega
      rw [wrap, Nat.add_mod_right, Nat.mod_eq_of_lt (by omega)]
    have old : overlay m p first a = m a := by
      rw [overlay, List.getElem?_eq_none (Nat.le_of_not_lt inFirst), Option.getD_none]
    rw [overlay, old, shifted, overlay, List.getElem?_append_right (Nat.le_of_not_lt inFirst)]

/-- A window read where a block was written is the block. -/
theorem window_overlay {m : BitVec w → α} {p : BitVec w} {cells : List α}
    (fits : cells.length ≤ 2 ^ w) : window (overlay m p cells) p cells.length = cells := by
  apply List.ext_getElem?
  intro i
  by_cases inside : i < cells.length
  · have here := List.getElem?_eq_getElem inside
    rw [getElem?_window inside, overlay_at fits here, here]
  · rw [List.getElem?_eq_none (by rw [length_window]; omega),
      List.getElem?_eq_none (Nat.le_of_not_lt inside)]

/-- A window beside the place of a block is read as before. -/
theorem window_overlay_apart {m : BitVec w → α} {p : BitVec w} {cells : List α} {a b n : Nat}
    (apart : a + n ≤ b ∨ b + cells.length ≤ a) (fits : a + n ≤ 2 ^ w)
    (fits' : b + cells.length ≤ 2 ^ w) :
    window (overlay m (p + BitVec.ofNat w b) cells) (p + BitVec.ofNat w a) n =
      window m (p + BitVec.ofNat w a) n := by
  refine List.map_congr_left ?_
  intro i member
  have hi := List.mem_range.mp member
  refine overlay_off ?_
  intro j hj same
  have places := congrArg (fun place => (place - p).toNat) same
  simp only [add_ofNat_add] at places
  rw [offset_toNat p (by omega), offset_toNat p (by omega)] at places
  omega

theorem overlay_map (f : α → β) (m : BitVec w → α) (p : BitVec w) (cells : List α) :
    overlay (fun a => f (m a)) p (cells.map f) = fun a => f (overlay m p cells a) := by
  funext a
  rw [overlay, overlay, List.getElem?_map]
  cases cells[(a - p).toNat]? <;> rfl

/-- A block padded with what the window holds behind it writes nothing more. -/
theorem overlay_padded (m : BitVec w → α) (p : BitVec w) (cells : List α) (n : Nat) :
    overlay m p (cells ++ (window m p n).drop cells.length) = overlay m p cells := by
  funext a
  by_cases inside : (a - p).toNat < cells.length
  · simp only [overlay, List.getElem?_append_left inside]
  · have past := Nat.le_of_not_lt inside
    have place : cells.length + ((a - p).toNat - cells.length) = (a - p).toNat := by omega
    rw [overlay, overlay, List.getElem?_append_right past, List.getElem?_eq_none past,
      List.getElem?_drop, place]
    by_cases inWindow : (a - p).toNat < n
    · rw [getElem?_window inWindow, add_offset]
      rfl
    · rw [List.getElem?_eq_none (by rw [length_window]; omega)]

/-! ## Blocks on top of each other -/

/-- Blocks put at one place in turn. -/
def stack (m : BitVec w → α) (p : BitVec w) (blocks : List (List α)) : BitVec w → α :=
  blocks.foldl (fun under cells => overlay under p cells) m

/-- The cell of the last block that reaches an index. -/
def topmost (blocks : List (List α)) (i : Nat) : Option α :=
  (blocks.filterMap fun cells => cells[i]?).getLast?

theorem topmost_snoc (blocks : List (List α)) (cells : List α) (i : Nat) :
    topmost (blocks ++ [cells]) i = cells[i]?.or (topmost blocks i) := by
  rw [topmost, List.filterMap_append]
  cases reached : cells[i]? with
  | none => simp [reached, topmost]
  | some c => simp [reached]

theorem topmost_cons (cells : List α) (blocks : List (List α)) (i : Nat) :
    topmost (cells :: blocks) i = (topmost blocks i).or cells[i]? := by
  rw [topmost, topmost]
  cases reached : cells[i]? with
  | none => simp [reached]
  | some c => simp [reached, List.getLast?_cons, Option.or_some]

theorem topmost_map (f : α → β) (blocks : List (List α)) (i : Nat) :
    topmost (blocks.map (List.map f)) i = (topmost blocks i).map f := by
  rw [topmost, topmost, ← List.getLast?_map, List.filterMap_map, List.map_filterMap]
  congr 2
  funext cells
  rw [Function.comp_apply, List.getElem?_map]

theorem stack_apply (m : BitVec w → α) (p : BitVec w) (blocks : List (List α)) (a : BitVec w) :
    stack m p blocks a = (topmost blocks (a - p).toNat).getD (m a) := by
  induction blocks using List.reverseRecOn with
  | nil => rfl
  | append_singleton blocks cells ih =>
    rw [stack, List.foldl_append, List.foldl_cons, List.foldl_nil, ← stack, overlay, ih,
      topmost_snoc]
    cases cells[(a - p).toNat]? <;> rfl

theorem topmost_beyond {blocks : List (List α)} {i : Nat} (beyond : blocks.flatten.length ≤ i) :
    topmost blocks i = none := by
  rw [topmost, List.getLast?_eq_none_iff, List.filterMap_eq_nil_iff]
  intro cells member
  have short := (List.sublist_flatten_of_mem member).length_le
  exact List.getElem?_eq_none (Nat.le_trans short beyond)

/-! ## Little-endian words -/

/-- The word that a list of at most eight bytes spells, the first byte lowest. -/
def ofBytes : List (BitVec 8) → BitVec 64
  | [] => 0
  | b :: rest => ofBytes rest <<< 8 ||| b.setWidth 64

/-- The eight bytes of a word, the lowest first. -/
def bytesOf (word : BitVec 64) : List (BitVec 8) :=
  (List.range 8).map fun i => word.extractLsb' (8 * i) 8

@[simp] theorem length_bytesOf (word : BitVec 64) : (bytesOf word).length = 8 := by
  rw [bytesOf, List.length_map, List.length_range]

theorem byte_ofBytes {bytes : List (BitVec 8)} {i : Nat} {b : BitVec 8}
    (here : bytes[i]? = some b) (low : i < 8) : (ofBytes bytes).extractLsb' (8 * i) 8 = b := by
  induction bytes generalizing i with
  | nil => simp at here
  | cons first rest ih =>
    ext k hk
    rw [BitVec.getElem_extractLsb', ofBytes, BitVec.getLsbD_or, BitVec.getLsbD_shiftLeft,
      BitVec.getLsbD_setWidth]
    cases i with
    | zero =>
      obtain rfl : first = b := by simpa using here
      have bit : k < 64 := by omega
      simp [hk, bit]
    | succ i =>
      have below := ih (i := i) (by simpa using here) (by omega)
      have bit := congrArg (fun x : BitVec 8 => x.getLsbD k) below
      simp only [BitVec.getLsbD_extractLsb', hk, decide_true, Bool.true_and] at bit
      have up : 8 * (i + 1) + k - 8 = 8 * i + k := by omega
      have high : first.getLsbD (8 * (i + 1) + k) = false := BitVec.getLsbD_of_ge _ _ (by omega)
      have inWord : 8 * (i + 1) + k < 64 := by omega
      have past : ¬8 * (i + 1) + k < 8 := by omega
      rw [up, bit, high, BitVec.getLsbD_eq_getElem hk]
      simp [inWord, past]

theorem bytesOf_ofBytes {bytes : List (BitVec 8)} (eight : bytes.length = 8) :
    bytesOf (ofBytes bytes) = bytes := by
  apply List.ext_getElem?
  intro i
  by_cases inside : i < 8
  · have here := List.getElem?_eq_getElem (l := bytes) (i := i) (by omega)
    rw [bytesOf, List.getElem?_map, List.getElem?_range inside, Option.map_some,
      byte_ofBytes here inside, here]
  · rw [List.getElem?_eq_none (by rw [length_bytesOf]; omega),
      List.getElem?_eq_none (by omega)]

theorem bytesOf_injective : Function.Injective bytesOf := by
  intro x y same
  apply BitVec.eq_of_getLsbD_eq
  intro i hi
  have low : i / 8 < 8 := by omega
  have bytes := congrArg (fun bytes => bytes[i / 8]?) same
  simp only [bytesOf, List.getElem?_map, List.getElem?_range low, Option.map_some,
    Option.some.injEq] at bytes
  have bits := congrArg (fun b : BitVec 8 => b.getLsbD (i % 8)) bytes
  have inByte : i % 8 < 8 := Nat.mod_lt i (by decide)
  simpa only [BitVec.getLsbD_extractLsb', inByte, decide_true, Bool.true_and,
    Nat.div_add_mod] using bits

/-- The word with its first bytes in memory order replaced. -/
def setBytes (word : BitVec 64) (data : List (BitVec 8)) : BitVec 64 :=
  ofBytes (data ++ (bytesOf word).drop data.length)

theorem bytesOf_setBytes (word : BitVec 64) {data : List (BitVec 8)} (short : data.length ≤ 8) :
    bytesOf (setBytes word data) = data ++ (bytesOf word).drop data.length := by
  apply bytesOf_ofBytes
  rw [List.length_append, List.length_drop, length_bytesOf]
  omega

end ByteWindows
