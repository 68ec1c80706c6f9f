import Redstone.DiskStore
import Redstone.StepRuns
import Redstone.WriteHistories

/-!
# Runs of calls on a disk file

A new disk file is empty, and its calls run one at a time under its mutex. After any
successful writes the file is the sparse byte file of their history. The check of a write
looks at its start only: one that starts below the limit and ends beyond it is not refused
but throws, as a vector can be as long as the limit and no longer.
-/

namespace DiskRuns

open MachineWords DiskStore StepRuns WriteHistories

inductive DiskOp where
  | write (pos : U64) (buf : Span)
  | read (pos : U64) (n : Nat)
  | getSize
  deriving DecidableEq

/-- The result, and the bytes copied into the caller's buffer. -/
abbrev DiskReply := I64 × List Byte

def step (d : DiskFile) : DiskOp → Except Thrown DiskReply × DiskFile
  | .write pos buf => let (v, after) := d.write pos buf; (v.map (·, []), after)
  | .read pos n => (.ok (d.read pos n), d)
  | .getSize => (.ok (d.getSize, []), d)

def patch (pos : U64) (buf : Span) : Patch Byte := ⟨pos.toNat, buf.bytes⟩

def written : DiskOp → Option (Patch Byte)
  | .write pos buf => some (patch pos buf)
  | _ => none

def writes (ops : List DiskOp) : List (Patch Byte) := ops.filterMap written

/-- A write starts below the limit and ends within it, so that it succeeds. -/
def Accepted : DiskOp → Prop
  | .write pos buf => Stores pos buf
  | _ => True

instance : (op : DiskOp) → Decidable (Accepted op)
  | .write pos buf => inferInstanceAs (Decidable (Stores pos buf))
  | .read _ _ => inferInstanceAs (Decidable True)
  | .getSize => inferInstanceAs (Decidable True)

theorem refused_negative : (failure 64 EINVAL).toInt = -22 := by decide

/-- The writes that succeed: they return, and what they return is not negative. -/
theorem accepted_write_iff (d : DiskFile) (pos : U64) (buf : Span) :
    Accepted (.write pos buf) ↔ ∃ v, (d.write pos buf).1 = .ok v ∧ 0 ≤ v.toInt := by
  constructor
  · intro stores
    refine ⟨buf.sizeBytes, DiskFile.write_value stores, ?_⟩
    rw [buf.sizeBytes_toInt]
    omega
  · rintro ⟨v, returned, nonneg⟩
    by_cases accepted : pos < maxFileSize
    · refine (stores_or_throws buf accepted).resolve_right fun throws => ?_
      rw [DiskFile.write_throws throws] at returned
      cases returned
    · rw [DiskFile.write_refused (BitVec.not_lt.mp accepted)] at returned
      rw [← Except.ok.inj returned, refused_negative] at nonneg
      omega

/-- Only a write changes the file. -/
theorem step_unwritten {op : DiskOp} (d : DiskFile) (silent : written op = none) :
    (step d op).2 = d := by
  cases op with
  | write pos buf => cases silent
  | read pos n => rfl
  | getSize => rfl

/-- The writes of a run, all successful, are replayed on the file. -/
theorem run_buffer {d : DiskFile} {ops : List DiskOp}
    (accepted : ∀ op ∈ ops, Accepted op) :
    (run step d ops).buffer = replay 0 d.buffer (writes ops) := by
  induction ops generalizing d with
  | nil => rfl
  | cons op rest ih =>
    obtain ⟨here, rest_accepted⟩ := List.forall_mem_cons.mp accepted
    rw [run_cons, ih rest_accepted]
    cases op with
    | write pos buf =>
      have stored : (step d (.write pos buf)).2.buffer = _ := DiskFile.write_buffer here
      rw [stored]
      rfl
    | read pos n => rfl
    | getSize => rfl

/-- A file whose bytes are those of a history of writes to an empty file. -/
structure Sparse (d : DiskFile) (ps : List (Patch Byte)) : Prop where
  size : d.buffer.length = reach ps
  reads : ∀ pos n, pos.toNat < d.buffer.length →
    (d.read pos n).1.toNat = min n (d.buffer.length - pos.toNat) ∧
      (d.read pos n).2.length = min n (d.buffer.length - pos.toNat) ∧
      ∀ i < min n (d.buffer.length - pos.toNat),
        (d.read pos n).2[i]? = some ((lastWritten ps (pos.toNat + i)).getD 0)
  past : ∀ pos n, d.buffer.length ≤ pos.toNat → d.read pos n = (failure 64 EINVAL, [])

theorem sparse_of_replay {d : DiskFile} {ps : List (Patch Byte)}
    (replayed : d.buffer = replay 0 [] ps) : Sparse d ps := by
  refine ⟨?_, ?_, fun pos n past => DiskFile.read_past n past⟩
  · rw [replayed, length_replay]
    exact Nat.zero_max _
  · intro pos n inside
    have fits : d.buffer.length ≤ 2 ^ 63 - 1 := d.fits
    rw [DiskFile.read_inside n inside]
    refine ⟨?_, ?_, ?_⟩
    · exact (BitVec.toNat_ofNat _ _).trans (Nat.mod_eq_of_lt (by omega))
    · rw [List.length_take, List.length_drop]
      omega
    · intro i copied
      have within : pos.toNat + i < d.buffer.length := by omega
      have empty : ([] : List Byte).getD (pos.toNat + i) 0 = 0 := rfl
      rw [List.getElem?_take_of_lt copied, List.getElem?_drop]
      rw [replayed] at within ⊢
      rw [getElem?_replay 0 [] ps within, empty]

/-- After any run of calls whose writes succeed, the size is the farthest end of a
write, a read delivers what the last writes over its range put there, and zero where none
did; and no call but a write changes the file. -/
theorem sparse_file (ops : List DiskOp) (accepted : ∀ op ∈ ops, Accepted op) :
    Sparse (run step .empty ops) (writes ops) ∧
      ∀ d op, written op = none → (step d op).2 = d :=
  ⟨sparse_of_replay (run_buffer accepted), fun d _ => step_unwritten d⟩

/-- A gap, an overwrite of a part of it, and a read that is cut off at the end. -/
theorem sparse_file_gap :
    Sparse (run step .empty [.write 3 ⟨[1, 2], by decide⟩, .read 0 9,
        .write 2 ⟨[7, 8], by decide⟩])
      [⟨3, [1, 2]⟩, ⟨2, [7, 8]⟩] :=
  (sparse_file [.write 3 ⟨[1, 2], by decide⟩, .read 0 9, .write 2 ⟨[7, 8], by decide⟩]
    (by decide)).1

/-! ## The size limit -/

/-- The write returns less than the length of its buffer: a failure, or a shorter count. -/
def Refused (d : DiskFile) (pos : U64) (buf : Span) : Prop :=
  ∃ v, (d.write pos buf).1 = .ok v ∧ v.toInt < buf.bytes.length

/-- The limit is kept at a call: the file stays within it, the sum of an accepted write
does not wrap, and a write that would end beyond the limit is refused or cut short and
leaves the file. -/
def Limited (d : DiskFile) : DiskOp → Prop
  | .write pos buf =>
    (d.write pos buf).2.buffer.length ≤ maxFileSize.toNat ∧
      (∀ v, (d.write pos buf).1 = .ok v → 0 ≤ v.toInt →
        (newSize pos buf).toNat = pos.toNat + buf.bytes.length) ∧
      (maxFileSize.toNat < pos.toNat + buf.bytes.length →
        Refused d pos buf ∧ (d.write pos buf).2 = d)
  | _ => d.buffer.length ≤ maxFileSize.toNat

/-- The write is refused for its start, or ends within the limit. -/
def EndsWithin : DiskOp → Prop
  | .write pos buf =>
    maxFileSize ≤ pos ∨ pos.toNat + buf.bytes.length ≤ maxFileSize.toNat
  | _ => True

/-- A write that starts below the limit and ends beyond it is neither refused nor stored. -/
theorem limited_iff (d : DiskFile) (op : DiskOp) : Limited d op ↔ EndsWithin op := by
  cases op with
  | read pos n => exact iff_of_true d.fits trivial
  | getSize => exact iff_of_true d.fits trivial
  | write pos buf =>
    have fits : (d.write pos buf).2.buffer.length ≤ maxFileSize.toNat := (d.write pos buf).2.fits
    by_cases refused : maxFileSize ≤ pos
    · have same : d.write pos buf = (.ok (failure 64 EINVAL), d) := DiskFile.write_refused refused
      refine iff_of_true ⟨fits, ?_, fun _ => ?_⟩ (Or.inl refused)
      · intro v returned nonneg
        rw [same] at returned
        rw [← Except.ok.inj returned, refused_negative] at nonneg
        omega
      · rw [Refused, same]
        refine ⟨⟨_, rfl, ?_⟩, rfl⟩
        rw [refused_negative]
        omega
    · have accepted := BitVec.not_le.mp refused
      constructor
      · rintro ⟨-, -, beyond⟩
        refine Or.inr (Nat.le_of_not_lt fun long => ?_)
        obtain ⟨⟨v, returned, -⟩, -⟩ := beyond long
        rw [DiskFile.write_throws ⟨accepted, long⟩] at returned
        cases returned
      · rintro (impossible | ends)
        · exact absurd impossible refused
        · exact ⟨fits, fun _ _ _ => newSize_toNat refused, fun beyond => absurd ends
            (Nat.not_le.mpr beyond)⟩

/-- The limit is kept at every call of a run exactly if every write that is not refused for
its start ends within the limit. -/
theorem size_limit_kept_iff (ops : List DiskOp) :
    Along step Limited .empty ops ↔ ∀ op ∈ ops, EndsWithin op := by
  have pointwise : Along step Limited .empty ops ↔
      Along step (fun _ op => EndsWithin op) DiskFile.empty ops :=
    along_congr (fun _ => True) (fun d op _ => limited_iff d op) (fun _ _ _ _ => trivial) trivial
  exact pointwise.trans (along_inputs EndsWithin DiskFile.empty ops)

/-- Two bytes written one below the limit: the write throws. -/
theorem crossing_write_throws :
    ¬Along step Limited .empty [.write 0x7ffffffffffffffe ⟨[1, 2], by decide⟩] := by
  rintro ⟨limited, -⟩
  rcases (limited_iff .empty _).mp limited with refused | within
  · exact absurd refused (by decide)
  · exact absurd within (by decide)

end DiskRuns
