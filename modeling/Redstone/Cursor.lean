import Redstone.BacklogRefinement

/-!
# The cursor of an open file

A write and a read move the cursor by what they acknowledge, and only when they succeed.
A seek stores its target first and returns it, so a target that is negative as a signed
word both moves the cursor and reads as a failure. The cursor stays within the size limit
as long as no seek leaves the range of the file and no queued write ends beyond the limit.
-/

namespace Cursor

open MachineWords DiskStore StepRuns OpenFiles OpenFile BacklogRefinement

/-- A write that is queued or stored acknowledges its whole buffer. -/
theorem write_advances {f : OpenFile} (buf : Span)
    (acknowledged : f.direct = false ∨ Stores f.pos buf) :
    (step f (.write buf)).1 = .ok ⟨buf.sizeBytes, []⟩ ∧
      (step f (.write buf)).2.pos = f.pos + buf.sizeBytes := by
  have value : (f.pwriteUnlocked buf f.pos).1 = .ok buf.sizeBytes := by
    rcases acknowledged with buffered | stores
    · exact pwriteUnlocked_buffered buffered buf f.pos
    · exact f.pwriteUnlocked_value stores
  have nonneg : ¬buf.sizeBytes.toInt < 0 := by
    rw [buf.sizeBytes_toInt]
    omega
  rw [step_write, value]
  simp only [moved, if_neg nonneg, (f.pwriteUnlocked_keeps buf f.pos).1]
  exact ⟨rfl, trivial⟩

/-- A direct write that is not stored leaves the handle. -/
theorem pwrite_stays {f : OpenFile} {buf : Span} {offset : U64} (direct : f.direct = true)
    (unstored : ¬Stores offset buf) : (f.pwriteUnlocked buf offset).2 = f := by
  rw [pwriteUnlocked, dif_pos direct]
  have same : (f.disk.write offset buf).2 = f.disk := DiskFile.write_unchanged unstored
  simp only [same]

theorem write_stays {f : OpenFile} {buf : Span} (direct : f.direct = true)
    (unstored : ¬Stores f.pos buf) : (step f (.write buf)).2 = f := by
  have result : (f.pwriteUnlocked buf f.pos).1 = (f.disk.write f.pos buf).1 := by
    rw [pwriteUnlocked, dif_pos direct]
  rw [step_write, pwrite_stays direct unstored, result]
  by_cases below : f.pos < maxFileSize
  · rw [DiskFile.write_throws ((stores_or_throws buf below).resolve_left unstored)]
    rfl
  · have failed : (failure 64 EINVAL).toInt < 0 := by decide
    rw [DiskFile.write_refused (BitVec.not_lt.mp below)]
    simp only [moved, if_pos failed]

/-! ## Reads -/

/-- The number of bytes that a read of `n` bytes finds at the cursor. -/
def available (f : OpenFile) (n : Nat) : Nat := min n (f.logical.buffer.length - f.pos.toNat)

/-- What is read ends inside the file, so the count is positive as a signed word. -/
theorem available_small (f : OpenFile) (n : Nat) : available f n < 2 ^ 63 := by
  have fits : f.logical.buffer.length ≤ 2 ^ 63 - 1 := f.logical.fits
  rw [available]
  omega

theorem available_toNat (f : OpenFile) (n : Nat) :
    (BitVec.ofNat 64 (available f n)).toNat = available f n := by
  have small := available_small f n
  rw [BitVec.toNat_ofNat, Nat.mod_eq_of_lt (by omega)]

theorem available_nonneg (f : OpenFile) (n : Nat) :
    ¬(BitVec.ofNat 64 (available f n)).toInt < 0 := by
  have small := available_small f n
  rw [BitVec.toInt_neg_iff, available_toNat]
  omega

/-- On a stuck handle a read throws and leaves the cursor. -/
theorem read_stuck {f : OpenFile} (stuck : f.Stuck) (n : Nat) :
    (step f (.read n)).1 = .error .lengthError ∧ (step f (.read n)).2.pos = f.pos := by
  rw [step_read, preadUnlocked_spec, if_pos stuck]
  exact ⟨rfl, fsyncUnlocked_pos f⟩

/-- At or after the end it fails and leaves the cursor. -/
theorem read_past {f : OpenFile} (free : ¬f.Stuck) (n : Nat)
    (past : f.logical.buffer.length ≤ f.pos.toNat) :
    (step f (.read n)).1 = .ok ⟨failure 64 EINVAL, []⟩ ∧ (step f (.read n)).2.pos = f.pos := by
  have failed : (failure 64 EINVAL).toInt < 0 := by decide
  rw [step_read, preadUnlocked_spec, if_neg free, DiskFile.read_past n past]
  refine ⟨rfl, ?_⟩
  simp only [Except.map, moved, if_pos failed, fsyncUnlocked_pos]

/-- Before the end it copies what is there and moves the cursor past it. -/
theorem read_inside {f : OpenFile} (free : ¬f.Stuck) (n : Nat)
    (inside : f.pos.toNat < f.logical.buffer.length) :
    (step f (.read n)).1 = .ok ⟨BitVec.ofNat 64 (available f n),
        (f.logical.buffer.drop f.pos.toNat).take (available f n)⟩ ∧
      (step f (.read n)).2.pos = f.pos + BitVec.ofNat 64 (available f n) := by
  rw [step_read, preadUnlocked_spec, if_neg free, DiskFile.read_inside n inside, ← available]
  refine ⟨rfl, ?_⟩
  simp only [Except.map, moved, if_neg (available_nonneg f n), fsyncUnlocked_pos]

theorem read_moves (f : OpenFile) (n : Nat) :
    (step f (.read n)).2.pos.toNat =
      if f.Stuck then f.pos.toNat else f.pos.toNat + available f n := by
  by_cases stuck : f.Stuck
  · rw [if_pos stuck, (read_stuck stuck n).2]
  · rw [if_neg stuck]
    rcases Nat.lt_or_ge f.pos.toNat f.logical.buffer.length with inside | past
    · have fits : f.logical.buffer.length ≤ 2 ^ 63 - 1 := f.logical.fits
      have ends : f.pos.toNat + available f n ≤ f.logical.buffer.length := by
        rw [available]
        omega
      rw [(read_inside stuck n inside).2, BitVec.toNat_add, available_toNat,
        Nat.mod_eq_of_lt (by omega)]
    · rw [(read_past stuck n past).2, available]
      omega

/-! ## Seeks -/

/-- What a seek adds its offset to. -/
def base (f : OpenFile) (whence : CInt) : Option U64 :=
  if whence = SEEK_SET then some 0
  else if whence = SEEK_CUR then some f.pos
  else if whence = SEEK_END then some f.disk.getSize
  else none

theorem lseek_eq (f : OpenFile) (offset : U64) (whence : CInt) :
    f.lseek offset whence = match base f whence with
      | some b => (b + offset, { f with pos := b + offset })
      | none => (failure 64 EINVAL, f) := by
  rw [lseek, base]
  by_cases set : whence = SEEK_SET
  · have start : (0 : U64) + offset = offset := BitVec.zero_add offset
    simp only [if_pos set, start]
  · by_cases cur : whence = SEEK_CUR
    · simp only [if_neg set, if_pos cur]
    · by_cases fromEnd : whence = SEEK_END
      · simp only [if_neg set, if_neg cur, if_pos fromEnd]
      · simp only [if_neg set, if_neg cur, if_neg fromEnd]

/-- With the offset as a signed number, the seek goes neither before the start nor beyond
the limit. -/
def SeeksInside (start offset : U64) : Prop :=
  -(start.toNat : Int) ≤ offset.toInt ∧ offset.toInt ≤ maxFileSize.toNat - start.toNat

instance (start offset : U64) : Decidable (SeeksInside start offset) :=
  inferInstanceAs (Decidable (_ ∧ _))

theorem seeksInside_iff {start offset : U64} (within : start ≤ maxFileSize) :
    start + offset ≤ maxFileSize ↔ SeeksInside start offset := by
  have small : start.toNat ≤ 2 ^ 63 - 1 := within
  have word := offset.isLt
  rw [BitVec.le_def, BitVec.toNat_add, SeeksInside, maxFileSize_toNat,
    BitVec.toInt_eq_toNat_cond]
  by_cases positive : 2 * offset.toNat < 2 ^ 64
  · rw [if_pos positive, Nat.mod_eq_of_lt (by omega)]
    omega
  · rw [if_neg positive]
    omega

/-- Every base of a seek is within the limit, if the cursor is. -/
theorem base_within {f : OpenFile} (within : f.pos ≤ maxFileSize) {whence : CInt} {b : U64}
    (found : base f whence = some b) : b ≤ maxFileSize := by
  have size : f.disk.getSize ≤ maxFileSize := by
    rw [BitVec.le_def, DiskFile.getSize_toNat]
    exact f.disk.fits
  rw [base] at found
  split at found
  · cases found
    decide
  · split at found
    · cases found
      exact within
    · split at found
      · cases found
        exact size
      · cases found

/-! ## Failures and the limit -/

/-- The call returns a negative value. -/
def Negative (answer : Except Thrown Reply) : Prop :=
  ∃ reply, answer = .ok reply ∧ reply.value.toInt < 0

theorem not_negative {v : I64} {bytes : List Byte} (nonneg : ¬v.toInt < 0) :
    ¬Negative (.ok ⟨v, bytes⟩) := by
  rintro ⟨reply, same, negative⟩
  obtain rfl := Except.ok.inj same
  exact nonneg negative

/-- A negative result leaves the position and the contents, and the cursor stays within
the size limit. -/
def Kept (f : OpenFile) (op : FileOp) : Prop :=
  (Negative (step f op).1 → (step f op).2.pos = f.pos ∧ (step f op).2.logical = f.logical) ∧
  (step f op).2.pos ≤ maxFileSize

/-- A write to the queue ends within the limit, and a seek does not leave the range of the
file. -/
def Bounded (f : OpenFile) : FileOp → Prop
  | .write buf => f.direct = true ∨ f.pos.toNat + buf.bytes.length ≤ maxFileSize.toNat
  | .lseek offset whence => ∀ b ∈ base f whence, SeeksInside b offset
  | _ => True

/-- A call that leaves the cursor and issues no write is kept. -/
theorem kept_of_still {f : OpenFile} {op : FileOp} (within : f.pos ≤ maxFileSize)
    (silent : issued f op = none) (stays : (step f op).2.pos = f.pos) : Kept f op := by
  refine ⟨fun _ => ⟨stays, ?_⟩, stays ▸ within⟩
  rw [logical_step, silent]
  exact ite_self _

theorem write_kept_iff {f : OpenFile} (within : f.pos ≤ maxFileSize) (buf : Span) :
    Kept f (.write buf) ↔ Bounded f (.write buf) := by
  have small : f.pos.toNat ≤ 2 ^ 63 - 1 := within
  have size := buf.sizeBytes_toInt
  have next : (f.pos + buf.sizeBytes).toNat = f.pos.toNat + buf.bytes.length :=
    add_sizeBytes_toNat (by omega) buf
  cases mode : f.direct with
  | false =>
    obtain ⟨answer, moved⟩ := write_advances buf (Or.inl mode)
    rw [Kept, answer, moved, BitVec.le_def, next, Bounded, mode]
    have fine : ¬Negative (.ok ⟨buf.sizeBytes, []⟩) := not_negative (by omega)
    exact ⟨fun kept => Or.inr kept.2, fun ends => ⟨fun failed => absurd failed fine,
      ends.resolve_left Bool.false_ne_true⟩⟩
  | true =>
    refine iff_of_true ?_ (Or.inl mode)
    by_cases stores : Stores f.pos buf
    · obtain ⟨answer, moved⟩ := write_advances buf (Or.inr stores)
      rw [Kept, answer, moved, BitVec.le_def, next]
      have fine : ¬Negative (.ok ⟨buf.sizeBytes, []⟩) := not_negative (by omega)
      exact ⟨fun failed => absurd failed fine, stores.2⟩
    · rw [Kept, write_stays mode stores]
      exact ⟨fun _ => ⟨rfl, rfl⟩, within⟩

theorem read_kept {f : OpenFile} (within : f.pos ≤ maxFileSize) (n : Nat) :
    Kept f (.read n) := by
  by_cases stuck : f.Stuck
  · exact kept_of_still within rfl (read_stuck stuck n).2
  · rcases Nat.lt_or_ge f.pos.toNat f.logical.buffer.length with inside | past
    · have fits : f.logical.buffer.length ≤ 2 ^ 63 - 1 := f.logical.fits
      have fine := @not_negative _ ((f.logical.buffer.drop f.pos.toNat).take (available f n))
        (available_nonneg f n)
      rw [Kept, (read_inside stuck n inside).1, BitVec.le_def, read_moves, if_neg stuck,
        maxFileSize_toNat, available]
      exact ⟨fun failed => absurd failed fine, by omega⟩
    · exact kept_of_still within rfl (read_past stuck n past).2

theorem lseek_kept_iff {f : OpenFile} (within : f.pos ≤ maxFileSize) (offset : U64)
    (whence : CInt) : Kept f (.lseek offset whence) ↔ Bounded f (.lseek offset whence) := by
  rw [Kept, Bounded, OpenFiles.step, lseek_eq f offset whence]
  cases found : base f whence with
  | none =>
    refine iff_of_true ⟨fun _ => ⟨rfl, rfl⟩, within⟩ ?_
    intro b impossible
    cases impossible
  | some b =>
    have inside : b + offset ≤ maxFileSize ↔ SeeksInside b offset :=
      seeksInside_iff (base_within within found)
    constructor
    · intro kept c same
      rw [← Option.some.inj same, ← inside]
      exact kept.2
    · intro bounded
      have ends := inside.mpr (bounded b rfl)
      have small : (b + offset).toNat ≤ 2 ^ 63 - 1 := ends
      have nonneg : ¬(b + offset).toInt < 0 := by
        rw [BitVec.toInt_neg_iff]
        omega
      exact ⟨fun failed => absurd failed (not_negative nonneg), ends⟩

theorem pwrite_kept {f : OpenFile} (within : f.pos ≤ maxFileSize) (buf : Span) (offset : U64) :
    Kept f (.pwrite buf offset) := by
  have stays : (step f (.pwrite buf offset)).2.pos = f.pos :=
    (f.pwriteUnlocked_keeps buf offset).1
  refine ⟨fun failed => ⟨stays, ?_⟩, stays ▸ within⟩
  have fine : ¬Negative (.ok ⟨buf.sizeBytes, []⟩) := by
    refine not_negative ?_
    rw [buf.sizeBytes_toInt]
    omega
  have direct : f.direct = true := by
    by_contra buffered
    rw [step_value rfl, pwriteUnlocked_buffered (Bool.eq_false_iff.mpr buffered)] at failed
    exact fine failed
  have unstored : ¬Stores offset buf := by
    intro stores
    rw [step_value rfl, f.pwriteUnlocked_value stores] at failed
    exact fine failed
  change (f.pwriteUnlocked buf offset).2.logical = f.logical
  rw [pwrite_stays direct unstored]

/-- A call leaves the cursor within the limit, and nothing changed when it fails, exactly
if it is bounded. -/
theorem kept_iff {f : OpenFile} (within : f.pos ≤ maxFileSize) (op : FileOp) :
    Kept f op ↔ Bounded f op := by
  cases op with
  | write buf => exact write_kept_iff within buf
  | read n => exact iff_of_true (read_kept within n) trivial
  | lseek offset whence => exact lseek_kept_iff within offset whence
  | pwrite buf offset => exact iff_of_true (pwrite_kept within buf offset) trivial
  | pread n offset =>
    have stays : (step f (.pread n offset)).2.pos = f.pos := by
      simp only [step, OpenFile.pread, preadUnlocked_spec, fsyncUnlocked_pos]
    exact iff_of_true (kept_of_still within rfl stays) trivial
  | fsync => exact iff_of_true (kept_of_still within rfl (fsyncUnlocked_pos f)) trivial

/-- From a new handle at position zero, in either mode, every call of a run keeps the
handle on failure and the cursor within the limit exactly if every call is bounded. -/
theorem cursor_kept_iff (direct : Bool) (disk : DiskFile) (ops : List FileOp) :
    Along step Kept (opened direct 0 disk) ops ↔
      Along step Bounded (opened direct 0 disk) ops := by
  have start : (0 : U64) ≤ maxFileSize := by decide
  exact along_congr (fun f => f.pos ≤ maxFileSize) (fun _ op within => kept_iff within op)
    (fun _ _ _ kept => kept.2) start

/-- A seek to one before the start returns -1 and leaves the cursor at 2^64 - 1. -/
theorem negative_seek_moves :
    ¬Along step Kept (opened false 0 .empty) [.lseek 0xffffffffffffffff SEEK_SET] := by
  rintro ⟨⟨failed_keeps, -⟩, -⟩
  have failed : Negative (.ok ⟨0xffffffffffffffff, []⟩) := ⟨_, rfl, by decide⟩
  exact absurd (failed_keeps failed).1 (by decide)

end Cursor
