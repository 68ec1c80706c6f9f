import Mathlib.Algebra.GroupWithZero.Nat
import Redstone.Cursor
import Redstone.WriteHistories

/-!
# Sequential transfers in pieces

Reads one after the other deliver what one read of the total length does, and writes one
after the other leave the file that one write of all bytes leaves. A read that meets the
end of the file is short, and those after it fail without moving the cursor. On a stuck
handle all reads throw, and the writes stay behind the one at which flushes throw.
-/

namespace SplitTransfers

open MachineWords DiskStore StepRuns OpenFiles OpenFile BacklogRefinement Cursor SparseArray

/-- What a call that did not fail returned. -/
def bytesOf : Except Thrown Reply → List Byte
  | .error _ => []
  | .ok r => if r.value.toInt < 0 then [] else r.bytes

/-- The bytes that the calls which did not fail returned. -/
def gained (replies : List (Except Thrown Reply)) : List Byte := replies.flatMap bytesOf

theorem gained_cons (r : Except Thrown Reply) (rest : List (Except Thrown Reply)) :
    gained (r :: rest) = bytesOf r ++ gained rest := List.flatMap_cons

theorem gained_one (r : Except Thrown Reply) : gained [r] = bytesOf r := by
  rw [gained_cons, gained, List.flatMap_nil, List.append_nil]

/-- A call that issues no write leaves the handle stuck, or free. -/
theorem stuck_silent {f : OpenFile} {op : FileOp} (silent : issued f op = none) :
    (step f op).2.Stuck ↔ f.Stuck := by
  rw [stuck_step, silent]
  exact or_iff_left fun ⟨_, _, impossible, _⟩ => nomatch impossible

/-! ## Reads -/

/-- One read, the failing one included: on a stuck handle nothing, else the bytes from the
cursor on. -/
theorem read_bytes (f : OpenFile) (n : Nat) :
    bytesOf (step f (.read n)).1 =
      if f.Stuck then [] else (f.logical.buffer.drop f.pos.toNat).take n := by
  by_cases stuck : f.Stuck
  · rw [(read_stuck stuck n).1, if_pos stuck, bytesOf]
  · rw [if_neg stuck]
    rcases Nat.lt_or_ge f.pos.toNat f.logical.buffer.length with inside | past
    · rw [(read_inside stuck n inside).1, bytesOf, if_neg (available_nonneg f n), available,
        ← List.length_drop]
      exact List.take_eq_take_min.symm
    · have failed : (failure 64 EINVAL).toInt < 0 := by decide
      rw [(read_past stuck n past).1, bytesOf, if_pos failed, List.drop_of_length_le past,
        List.take_nil]

/-- Going on where a read stopped is going on after all it asked for: past the end there
is nothing either way. -/
theorem drop_available (f : OpenFile) (n : Nat) :
    f.logical.buffer.drop (f.pos.toNat + available f n) =
      f.logical.buffer.drop (f.pos.toNat + n) := by
  by_cases short : f.logical.buffer.length < f.pos.toNat + n
  · rw [List.drop_of_length_le (Nat.le_of_lt short), List.drop_of_length_le]
    rw [available]
    omega
  · congr 1
    rw [available]
    omega

/-- A read leaves the contents. -/
theorem read_logical (f : OpenFile) (n : Nat) : (step f (.read n)).2.logical = f.logical :=
  (logical_step f (.read n)).trans (ite_self _)

theorem reads_spec (f : OpenFile) (ns : List Nat) :
    gained (outputs step f (ns.map .read)) =
        (if f.Stuck then [] else (f.logical.buffer.drop f.pos.toNat).take ns.sum) ∧
      (run step f (ns.map .read)).pos.toNat =
        if f.Stuck then f.pos.toNat else f.pos.toNat + available f ns.sum := by
  induction ns generalizing f with
  | nil => simp [gained, available]
  | cons n rest ih =>
    have stays : (step f (.read n)).2.Stuck ↔ f.Stuck := stuck_silent rfl
    obtain ⟨later, final⟩ := ih (step f (.read n)).2
    rw [List.map_cons, outputs_cons, gained_cons, read_bytes, later, run_cons, final,
      List.sum_cons]
    by_cases stuck : f.Stuck
    · rw [if_pos stuck, if_pos (stays.mpr stuck), if_pos stuck, if_pos (stays.mpr stuck),
        if_pos stuck, read_moves, if_pos stuck]
      exact ⟨rfl, rfl⟩
    · have moved := read_moves f n
      rw [if_neg stuck] at moved
      have same := read_logical f n
      have count : available f n ≤ n := Nat.min_le_left _ _
      rw [if_neg stuck, if_neg (mt stays.mp stuck), if_neg stuck, if_neg (mt stays.mp stuck),
        if_neg stuck]
      constructor
      · rw [same, moved, drop_available, List.take_add, List.drop_drop]
      · have left : available (step f (.read n)).2 rest.sum =
            min rest.sum (f.logical.buffer.length - (f.pos.toNat + available f n)) := by
          rw [available, same, moved]
        rw [moved, left, available, available]
        omega

/-! ## Writes -/

theorem write_spec (f : OpenFile) (buf : Span)
    (room : f.pos.toNat + buf.bytes.length < maxFileSize.toNat) :
    (step f (.write buf)).2.pos.toNat = f.pos.toNat + buf.bytes.length ∧
      ((step f (.write buf)).2.Stuck ↔ f.Stuck) ∧
      (step f (.write buf)).2.logical.buffer =
        if f.Stuck then f.logical.buffer else put 0 f.logical.buffer f.pos.toNat buf.bytes := by
  have stores : Stores f.pos buf := by
    refine ⟨?_, Nat.le_of_lt room⟩
    rw [BitVec.lt_def]
    omega
  refine ⟨?_, ?_, ?_⟩
  · rw [maxFileSize_toNat] at room
    rw [(write_advances buf (Or.inr stores)).2, add_sizeBytes_toNat (by omega)]
  · rw [stuck_step]
    refine or_iff_left ?_
    rintro ⟨-, req, same, throws⟩
    obtain rfl := Option.some.inj same
    exact stores.not_throws throws
  · rw [logical_step f (.write buf)]
    by_cases stuck : f.Stuck
    · rw [if_pos stuck, if_pos stuck]
    · rw [if_neg stuck, if_neg stuck]
      exact DiskFile.write_buffer stores

theorem writes_spec {f : OpenFile} {first : Span} {rest : List Span}
    (room : f.pos.toNat + ((first :: rest).flatMap Span.bytes).length < maxFileSize.toNat) :
    (run step f ((first :: rest).map .write)).pos.toNat =
        f.pos.toNat + ((first :: rest).flatMap Span.bytes).length ∧
      (run step f ((first :: rest).map .write)).logical.buffer =
        if f.Stuck then f.logical.buffer
        else put 0 f.logical.buffer f.pos.toNat ((first :: rest).flatMap Span.bytes) := by
  induction rest generalizing f first with
  | nil =>
    simp only [List.flatMap_cons, List.flatMap_nil, List.append_nil] at room ⊢
    obtain ⟨moved, -, stored⟩ := write_spec f first room
    exact ⟨moved, stored⟩
  | cons second rest ih =>
    rw [List.flatMap_cons, List.length_append] at room
    obtain ⟨moved, stays, stored⟩ := write_spec f first (by omega)
    obtain ⟨final, contents⟩ := @ih (step f (.write first)).2 second (by omega)
    rw [List.map_cons, run_cons, List.flatMap_cons, List.length_append]
    constructor
    · rw [final, moved]
      omega
    · rw [contents]
      by_cases stuck : f.Stuck
      · rw [if_pos (stays.mpr stuck), if_pos stuck, stored, if_pos stuck]
      · rw [if_neg (mt stays.mp stuck), if_neg stuck, stored, if_neg stuck, moved,
          WriteHistories.put_append]

/-! ## Transfers in pieces -/

/-- Reads return together what one read of their total length returns, and leave the
cursor where it does. -/
def ReadsSplit (f : OpenFile) (ns : List Nat) : Prop :=
  gained (outputs step f (ns.map .read)) = gained [(step f (.read ns.sum)).1] ∧
    (run step f (ns.map .read)).pos = (step f (.read ns.sum)).2.pos

/-- Writes leave the cursor and, once flushed, the file that one write of all their bytes
leaves. -/
def WritesSplit (f : OpenFile) (bufs : List Span) (whole : Span) : Prop :=
  (run step f (bufs.map .write)).pos = (step f (.write whole)).2.pos ∧
    (run step f (bufs.map .write)).fsync.2.disk = (step f (.write whole)).2.fsync.2.disk

theorem reads_split (f : OpenFile) (ns : List Nat) : ReadsSplit f ns := by
  obtain ⟨bytes, final⟩ := reads_spec f ns
  constructor
  · rw [bytes, gained_one, read_bytes]
  · rw [← BitVec.toNat_inj, final, read_moves]

theorem writes_split {f : OpenFile} {bufs : List Span} {whole : Span} (some : bufs ≠ [])
    (joined : whole.bytes = bufs.flatMap Span.bytes)
    (room : f.pos.toNat + whole.bytes.length < maxFileSize.toNat) :
    WritesSplit f bufs whole := by
  obtain ⟨first, rest, rfl⟩ := List.exists_cons_of_ne_nil some
  obtain ⟨moved, -, single⟩ := write_spec f whole room
  rw [joined] at room single moved
  obtain ⟨final, contents⟩ := writes_spec room
  constructor
  · rw [← BitVec.toNat_inj, final, moved]
  · apply DiskFile.ext
    have flushed : ∀ g : OpenFile, g.fsync.2.disk = g.logical := fsyncUnlocked_disk
    rw [flushed, flushed, contents, single]

/-- In either mode, from any state with room for the whole transfer, sequential reads and
sequential writes can be split anywhere. -/
theorem transfers_split (f : OpenFile) :
    (∀ ns : List Nat, f.pos.toNat + ns.sum < maxFileSize.toNat → ReadsSplit f ns) ∧
      ∀ bufs whole, bufs ≠ [] → whole.bytes = bufs.flatMap Span.bytes →
        f.pos.toNat + whole.bytes.length < maxFileSize.toNat → WritesSplit f bufs whole :=
  ⟨fun ns _ => reads_split f ns, fun _ _ some joined room => writes_split some joined room⟩

/-- Reads that meet the end in the middle, after a queued write, and writes with an empty
one between them, past the end of the file. -/
theorem transfers_split_queued :
    ReadsSplit { run step (opened false 0 .empty) [.pwrite ⟨[1, 2, 3], by decide⟩ 0] with pos := 1 }
        [0, 1, 5, 2] ∧
      WritesSplit (opened false 4 .empty) [⟨[1], by decide⟩, ⟨[], by decide⟩, ⟨[2, 3], by decide⟩]
        ⟨[1, 2, 3], by decide⟩ :=
  ⟨(transfers_split _).1 _ (by decide), (transfers_split _).2 _ _ (by decide) rfl (by decide)⟩

end SplitTransfers
