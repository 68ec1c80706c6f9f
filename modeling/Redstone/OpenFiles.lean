import Redstone.DiskStore
import Redstone.StepRuns
import Redstone.WriteHistories

/-!
# Open files with a write backlog

An open file either writes through to its disk file or queues each write and
applies the queue, in order, at the next flush. A queued write that is too long for the
disk file makes every flush throw: those before it have been stored by then, and it stays
in the queue with those behind it. The logical file (the disk file as a flush leaves it) is
what every operation is specified against: unless the handle is stuck with such a write, a
write in either mode is one write to the logical file, and nothing else changes it.
-/

namespace OpenFiles

open MachineWords DiskStore StepRuns WriteHistories

structure WriteReq where
  bytes : Span
  pos : U64
  deriving DecidableEq

namespace WriteReq

def Stores (req : WriteReq) : Prop := DiskStore.Stores req.pos req.bytes

def Throws (req : WriteReq) : Prop := DiskStore.Throws req.pos req.bytes

instance (req : WriteReq) : Decidable req.Stores :=
  inferInstanceAs (Decidable (DiskStore.Stores req.pos req.bytes))

instance (req : WriteReq) : Decidable req.Throws :=
  inferInstanceAs (Decidable (DiskStore.Throws req.pos req.bytes))

def patch (req : WriteReq) : Patch Byte := ⟨req.pos.toNat, req.bytes.bytes⟩

end WriteReq

/-- `disk` is the file behind `disk_`. A direct handle never queues a write. -/
structure OpenFile where
  writeBacklog : List WriteReq
  disk : DiskFile
  pos : U64
  direct : Bool
  idle : direct = true → writeBacklog = []

/-- A freshly opened handle has an empty backlog. -/
def opened (direct : Bool) (pos : U64) (disk : DiskFile) : OpenFile where
  writeBacklog := []
  disk := disk
  pos := pos
  direct := direct
  idle := fun _ => rfl

/-- The loop of `fsync_unlocked`. The results of the writes are dropped. -/
def flush (disk : DiskFile) : List WriteReq → Except Thrown Unit × DiskFile
  | [] => (.ok (), disk)
  | req :: rest =>
    let (written, disk) := disk.write req.pos req.bytes
    match written with
    | .error e => (.error e, disk)
    | .ok _ => flush disk rest

def SEEK_SET : CInt := 0
def SEEK_CUR : CInt := 1
def SEEK_END : CInt := 2

namespace OpenFile

/-- An exception leaves the backlog as it is. -/
def fsyncUnlocked (f : OpenFile) : Except Thrown CInt × OpenFile :=
  if f.direct then (.ok 0, f)
  else
    let (done, disk) := flush f.disk f.writeBacklog
    match done with
    | .error e => (.error e, { f with disk })
    | .ok () => (.ok 0, { f with disk, writeBacklog := [], idle := fun _ => rfl })

def pwriteUnlocked (f : OpenFile) (buf : Span) (offset : U64) : Except Thrown I64 × OpenFile :=
  if mode : f.direct then
    let (bytesWritten, disk) := f.disk.write offset buf
    (bytesWritten, { f with disk })
  else (.ok buf.sizeBytes, { f with
    writeBacklog := f.writeBacklog ++ [⟨buf, offset⟩]
    idle := fun direct => absurd direct mode })

/-- The flush comes first; its result is dropped. -/
def preadUnlocked (f : OpenFile) (n : Nat) (offset : U64) :
    Except Thrown (I64 × List Byte) × OpenFile :=
  let (synced, f) := f.fsyncUnlocked
  match synced with
  | .error e => (.error e, f)
  | .ok _ => (.ok (f.disk.read offset n), f)

def write (f : OpenFile) (buf : Span) : Except Thrown I64 × OpenFile :=
  let (result, f) := f.pwriteUnlocked buf f.pos
  match result with
  | .error e => (.error e, f)
  | .ok result =>
    if result.toInt < 0 then (.ok result, f) else (.ok result, { f with pos := f.pos + result })

def read (f : OpenFile) (n : Nat) : Except Thrown (I64 × List Byte) × OpenFile :=
  let (result, f) := f.preadUnlocked n f.pos
  match result with
  | .error e => (.error e, f)
  | .ok result =>
    if result.1.toInt < 0 then (.ok result, f)
    else (.ok result, { f with pos := f.pos + result.1 })

def pwrite (f : OpenFile) (buf : Span) (offset : U64) : Except Thrown I64 × OpenFile :=
  f.pwriteUnlocked buf offset

def pread (f : OpenFile) (n : Nat) (offset : U64) : Except Thrown (I64 × List Byte) × OpenFile :=
  f.preadUnlocked n offset

def lseek (f : OpenFile) (offset : U64) (whence : CInt) : I64 × OpenFile :=
  if whence = SEEK_SET then (offset, { f with pos := offset })
  else if whence = SEEK_CUR then (f.pos + offset, { f with pos := f.pos + offset })
  else if whence = SEEK_END then
    (f.disk.getSize + offset, { f with pos := f.disk.getSize + offset })
  else (failure 64 EINVAL, f)

def fsync (f : OpenFile) : Except Thrown CInt × OpenFile := f.fsyncUnlocked

/-- The disk file as a flush of this handle would leave it. -/
def logical (f : OpenFile) : DiskFile := (flush f.disk f.writeBacklog).2

/-- A queued write makes every flush of the handle throw. -/
def Stuck (f : OpenFile) : Prop := ∃ req ∈ f.writeBacklog, req.Throws

instance (f : OpenFile) : Decidable f.Stuck :=
  inferInstanceAs (Decidable (∃ req ∈ f.writeBacklog, req.Throws))

end OpenFile

/-- One call on a handle. A read names the length of the caller's buffer. -/
inductive FileOp where
  | write (buf : Span)
  | read (n : Nat)
  | pwrite (buf : Span) (offset : U64)
  | pread (n : Nat) (offset : U64)
  | lseek (offset : U64) (whence : CInt)
  | fsync

/-- What the caller gets back: the result and the bytes put in its buffer. -/
structure Reply where
  value : I64
  bytes : List Byte
  deriving DecidableEq

/-- One call returns or throws, and a handle is left in either case. -/
def step (f : OpenFile) : FileOp → Except Thrown Reply × OpenFile
  | .write buf => let (v, g) := f.write buf; (v.map (⟨·, []⟩), g)
  | .read n => let (r, g) := f.read n; (r.map fun r => ⟨r.1, r.2⟩, g)
  | .pwrite buf offset => let (v, g) := f.pwrite buf offset; (v.map (⟨·, []⟩), g)
  | .pread n offset => let (r, g) := f.pread n offset; (r.map fun r => ⟨r.1, r.2⟩, g)
  | .lseek offset whence => let (v, g) := f.lseek offset whence; (.ok ⟨v, []⟩, g)
  | .fsync => let (v, g) := f.fsync; (v.map fun v => ⟨v.signExtend 64, []⟩, g)

/-- The write a call issues, with the offset it is issued at. -/
def issued (f : OpenFile) : FileOp → Option WriteReq
  | .write buf => some ⟨buf, f.pos⟩
  | .pwrite buf offset => some ⟨buf, offset⟩
  | _ => none

/-- Every write the call issues starts below the size limit. -/
def InRange (f : OpenFile) (op : FileOp) : Prop :=
  ∀ req ∈ issued f op, req.pos < maxFileSize

instance (f : OpenFile) (op : FileOp) : Decidable (InRange f op) :=
  inferInstanceAs (Decidable (∀ req ∈ issued f op, req.pos < maxFileSize))

/-! ## How far a flush gets -/

/-- The requests before the first one that throws. -/
def reached (backlog : List WriteReq) : List WriteReq :=
  backlog.takeWhile fun req => !decide req.Throws

/-- Each request is written, whatever comes of it. -/
def storeAll (disk : DiskFile) (reqs : List WriteReq) : DiskFile :=
  reqs.foldl (fun d req => (d.write req.pos req.bytes).2) disk

/-- The requests that are stored, as patches of the buffer. -/
def patches (reqs : List WriteReq) : List (Patch Byte) :=
  (reqs.filter fun req => req.Stores).map WriteReq.patch

theorem storeAll_append (d : DiskFile) (first second : List WriteReq) :
    storeAll d (first ++ second) = storeAll (storeAll d first) second :=
  List.foldl_append

theorem storeAll_buffer (disk : DiskFile) (reqs : List WriteReq) :
    (storeAll disk reqs).buffer = replay 0 disk.buffer (patches reqs) := by
  induction reqs generalizing disk with
  | nil => rfl
  | cons req rest ih =>
    change (storeAll (disk.write req.pos req.bytes).2 rest).buffer = _
    rw [ih, patches, patches]
    by_cases stores : req.Stores
    · rw [List.filter_cons_of_pos (by simpa using stores), DiskFile.write_buffer stores]
      rfl
    · rw [List.filter_cons_of_neg (by simpa using stores), DiskFile.write_unchanged stores]

theorem storeAll_again (disk : DiskFile) (reqs : List WriteReq) :
    storeAll (storeAll disk reqs) reqs = storeAll disk reqs := by
  apply DiskFile.ext
  rw [storeAll_buffer, storeAll_buffer, replay_again]

theorem reached_of_throws {req : WriteReq} (throws : req.Throws) (rest : List WriteReq) :
    reached (req :: rest) = [] := by
  rw [reached, List.takeWhile_cons_of_neg (by simp [throws])]

theorem reached_of_not_throws {req : WriteReq} (passes : ¬req.Throws) (rest : List WriteReq) :
    reached (req :: rest) = req :: reached rest := by
  rw [reached, List.takeWhile_cons_of_pos (by simp [passes]), ← reached]

/-- With no request that throws in the queue, all are reached. -/
theorem reached_append {first : List WriteReq} (free : ¬∃ req ∈ first, req.Throws)
    (second : List WriteReq) : reached (first ++ second) = first ++ reached second := by
  refine List.takeWhile_append_of_pos fun req member => ?_
  simpa using fun throws => free ⟨req, member, throws⟩

theorem reached_all {backlog : List WriteReq} (free : ¬∃ req ∈ backlog, req.Throws) :
    reached backlog = backlog := by
  have whole := reached_append free []
  have none : reached [] = [] := rfl
  rwa [none, List.append_nil] at whole

/-- Nothing behind a request that throws is reached. -/
theorem reached_stuck {first : List WriteReq} (stuck : ∃ req ∈ first, req.Throws)
    (second : List WriteReq) : reached (first ++ second) = reached first := by
  induction first with
  | nil =>
    obtain ⟨req, member, -⟩ := stuck
    cases member
  | cons req rest ih =>
    by_cases throws : req.Throws
    · rw [List.cons_append, reached_of_throws throws, reached_of_throws throws]
    · have later : ∃ r ∈ rest, r.Throws := by
        obtain ⟨r, member, throws'⟩ := stuck
        rcases List.mem_cons.mp member with rfl | member
        · exact absurd throws' throws
        · exact ⟨r, member, throws'⟩
      rw [List.cons_append, reached_of_not_throws throws, ih later,
        reached_of_not_throws throws]

theorem mem_reached {backlog : List WriteReq} {req : WriteReq} (member : req ∈ reached backlog) :
    req ∈ backlog ∧ ¬req.Throws := by
  refine ⟨(List.takeWhile_prefix _).subset member, ?_⟩
  have passes := List.all_eq_true.mp List.all_takeWhile req member
  simpa using passes

/-- The loop stores what it reaches, and throws if that is not all. -/
theorem flush_spec (disk : DiskFile) (backlog : List WriteReq) :
    flush disk backlog =
      (if ∃ req ∈ backlog, req.Throws then .error .lengthError else .ok (),
        storeAll disk (reached backlog)) := by
  induction backlog generalizing disk with
  | nil => rfl
  | cons req rest ih =>
    by_cases throws : req.Throws
    · have stuck : ∃ r ∈ req :: rest, r.Throws := ⟨req, List.mem_cons_self, throws⟩
      rw [flush, DiskFile.write_throws throws, if_pos stuck, reached_of_throws throws]
      rfl
    · have same : (∃ r ∈ req :: rest, r.Throws) ↔ ∃ r ∈ rest, r.Throws := by
        simp [throws]
      have written : ∃ v, (disk.write req.pos req.bytes).1 = .ok v := by
        cases result : (disk.write req.pos req.bytes).1 with
        | ok v => exact ⟨v, rfl⟩
        | error e => exact absurd (DiskFile.write_error_iff.mp result) throws
      obtain ⟨v, written⟩ := written
      simp only [flush, written, ih, same, reached_of_not_throws throws]
      rfl

namespace OpenFile

theorem logical_eq (f : OpenFile) : f.logical = storeAll f.disk (reached f.writeBacklog) := by
  rw [logical, flush_spec]

theorem not_stuck {f : OpenFile} (direct : f.direct = true) : ¬f.Stuck := by
  rintro ⟨req, member, -⟩
  rw [f.idle direct] at member
  cases member

theorem logical_direct {f : OpenFile} (direct : f.direct = true) : f.logical = f.disk := by
  rw [logical, f.idle direct]
  rfl

/-- A flush stores the logical file. It leaves nothing pending and returns zero, but on a
stuck handle it throws and leaves all pending. -/
theorem fsyncUnlocked_spec (f : OpenFile) :
    f.fsyncUnlocked.1 = (if f.Stuck then .error .lengthError else .ok 0) ∧
      f.fsyncUnlocked.2.disk = f.logical ∧
      f.fsyncUnlocked.2.writeBacklog = (if f.Stuck then f.writeBacklog else []) ∧
      f.fsyncUnlocked.2.pos = f.pos ∧ f.fsyncUnlocked.2.direct = f.direct := by
  by_cases direct : f.direct = true
  · rw [fsyncUnlocked, if_pos direct, if_neg (not_stuck direct), if_neg (not_stuck direct)]
    exact ⟨rfl, (logical_direct direct).symm, f.idle direct, rfl, rfl⟩
  · by_cases stuck : f.Stuck
    · simp only [fsyncUnlocked, if_neg direct, flush_spec, logical, if_pos stuck,
        if_pos (show ∃ req ∈ f.writeBacklog, req.Throws from stuck), and_self]
    · simp only [fsyncUnlocked, if_neg direct, flush_spec, logical, if_neg stuck,
        if_neg (show ¬∃ req ∈ f.writeBacklog, req.Throws from stuck), and_self]

theorem fsyncUnlocked_disk (f : OpenFile) : f.fsyncUnlocked.2.disk = f.logical :=
  f.fsyncUnlocked_spec.2.1

theorem fsyncUnlocked_stuck (f : OpenFile) : f.fsyncUnlocked.2.Stuck ↔ f.Stuck := by
  rw [Stuck, f.fsyncUnlocked_spec.2.2.1]
  by_cases stuck : f.Stuck
  · rw [if_pos stuck]
    rfl
  · rw [if_neg stuck]
    exact iff_of_false (fun ⟨req, member, _⟩ => List.not_mem_nil member) stuck

theorem fsyncUnlocked_logical (f : OpenFile) : f.fsyncUnlocked.2.logical = f.logical := by
  obtain ⟨-, disk, backlog, -, -⟩ := f.fsyncUnlocked_spec
  rw [logical_eq, backlog, disk]
  by_cases stuck : f.Stuck
  · rw [if_pos stuck, logical_eq, storeAll_again]
  · rw [if_neg stuck]
    rfl

@[simp] theorem fsyncUnlocked_pos (f : OpenFile) : f.fsyncUnlocked.2.pos = f.pos :=
  f.fsyncUnlocked_spec.2.2.2.1

@[simp] theorem fsyncUnlocked_direct (f : OpenFile) : f.fsyncUnlocked.2.direct = f.direct :=
  f.fsyncUnlocked_spec.2.2.2.2

/-- In either mode a write is one write to the logical file, but on a stuck handle. -/
theorem pwriteUnlocked_logical (f : OpenFile) (buf : Span) (offset : U64) :
    (f.pwriteUnlocked buf offset).2.logical =
      if f.Stuck then f.logical else (f.logical.write offset buf).2 := by
  by_cases direct : f.direct = true
  · rw [if_neg (not_stuck direct), logical_direct direct, pwriteUnlocked, dif_pos direct]
    exact logical_direct direct
  · rw [pwriteUnlocked, dif_neg direct, logical_eq, logical_eq]
    by_cases stuck : f.Stuck
    · rw [if_pos stuck, reached_stuck stuck]
    · rw [if_neg stuck, reached_append stuck, storeAll_append, reached_all stuck]
      by_cases throws : WriteReq.Throws ⟨buf, offset⟩
      · rw [reached_of_throws throws, DiskFile.write_throws throws]
        rfl
      · rw [reached_of_not_throws throws]
        rfl

/-- A handle gets stuck when a write that throws is queued, and stays so. -/
theorem pwriteUnlocked_stuck (f : OpenFile) (buf : Span) (offset : U64) :
    (f.pwriteUnlocked buf offset).2.Stuck ↔
      f.Stuck ∨ f.direct = false ∧ Throws offset buf := by
  by_cases direct : f.direct = true
  · have through : (f.pwriteUnlocked buf offset).2.direct = true := by
      rw [pwriteUnlocked, dif_pos direct]
      exact direct
    refine iff_of_false (not_stuck through) ?_
    rintro (stuck | ⟨buffered, -⟩)
    · exact not_stuck direct stuck
    · exact absurd (buffered.symm.trans direct) Bool.false_ne_true
  · have buffered : f.direct = false := Bool.eq_false_iff.mpr direct
    rw [pwriteUnlocked, dif_neg direct, Stuck, Stuck, and_iff_right buffered]
    simp only [List.mem_append, List.mem_singleton, or_and_right, exists_or, exists_eq_left]
    exact Iff.rfl

/-- A write that can be stored is acknowledged with its whole length in both modes. -/
theorem pwriteUnlocked_value (f : OpenFile) {buf : Span} {offset : U64}
    (stores : Stores offset buf) : (f.pwriteUnlocked buf offset).1 = .ok buf.sizeBytes := by
  by_cases direct : f.direct = true
  · rw [pwriteUnlocked, dif_pos direct]
    exact DiskFile.write_value stores
  · rw [pwriteUnlocked, dif_neg direct]

/-- And in the buffered mode any other write is, too. -/
theorem pwriteUnlocked_buffered {f : OpenFile} (buffered : f.direct = false) (buf : Span)
    (offset : U64) : (f.pwriteUnlocked buf offset).1 = .ok buf.sizeBytes := by
  rw [pwriteUnlocked, dif_neg (Bool.eq_false_iff.mp buffered)]

theorem pwriteUnlocked_keeps (f : OpenFile) (buf : Span) (offset : U64) :
    (f.pwriteUnlocked buf offset).2.pos = f.pos ∧
      (f.pwriteUnlocked buf offset).2.direct = f.direct := by
  by_cases direct : f.direct = true
  · rw [pwriteUnlocked, dif_pos direct]
    exact ⟨rfl, rfl⟩
  · rw [pwriteUnlocked, dif_neg direct]
    exact ⟨rfl, rfl⟩

/-- A read answers from the logical file, but on a stuck handle it throws. -/
theorem preadUnlocked_spec (f : OpenFile) (n : Nat) (offset : U64) :
    f.preadUnlocked n offset =
      (if f.Stuck then .error .lengthError else .ok (f.logical.read offset n),
        f.fsyncUnlocked.2) := by
  obtain ⟨done, disk, -⟩ := f.fsyncUnlocked_spec
  by_cases stuck : f.Stuck
  · rw [if_pos stuck] at done ⊢
    simp only [preadUnlocked, done]
  · rw [if_neg stuck] at done ⊢
    simp only [preadUnlocked, done, disk]

end OpenFile
end OpenFiles
