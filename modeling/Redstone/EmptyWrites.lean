import Redstone.BacklogRefinement

/-!
# Writes of no bytes

A write of an empty buffer still makes the file reach its offset. Inside the file that
changes nothing, and then no later call tells the handle from one that did not write;
past the end it grows the file, at once in the direct mode and at the next flush in the
buffered one. On a stuck handle no flush gets to it.
-/

namespace EmptyWrites

open MachineWords DiskStore StepRuns OpenFiles OpenFile BacklogRefinement SparseArray

/-- The calls that store the logical file. -/
def flushes : FileOp → Bool
  | .read _ => true
  | .pread _ _ => true
  | .fsync => true
  | _ => false

theorem step_disk {f : OpenFile} (buffered : f.direct = false) (op : FileOp) :
    (step f op).2.disk = if flushes op then f.logical else f.disk := by
  have queues : ∀ buf offset, (f.pwriteUnlocked buf offset).2.disk = f.disk := by
    intro buf offset
    rw [pwriteUnlocked, dif_neg (by simp [buffered])]
  obtain ⟨pos, same⟩ := step_effect f op
  rw [same]
  cases op with
  | write buf => exact queues buf f.pos
  | pwrite buf offset => exact queues buf offset
  | read n => exact fsyncUnlocked_disk f
  | pread n offset => exact fsyncUnlocked_disk f
  | lseek offset whence => rfl
  | fsync => exact fsyncUnlocked_disk f

/-- Handles that no later call tells apart. -/
structure Alike (f g : OpenFile) : Prop where
  pos : f.pos = g.pos
  direct : f.direct = g.direct
  stuck : f.Stuck ↔ g.Stuck
  disk : f.disk = g.disk
  logical : f.logical = g.logical

theorem alike_step {f g : OpenFile} (h : Alike f g) (op : FileOp) :
    (step f op).1 = (step g op).1 ∧ Alike (step f op).2 (step g op).2 := by
  have acks : ∀ req ∈ issued f op,
      (f.pwriteUnlocked req.bytes req.pos).1 = (g.pwriteUnlocked req.bytes req.pos).1 := by
    intro req _
    by_cases direct : f.direct = true
    · rw [pwriteUnlocked, dif_pos direct, pwriteUnlocked, dif_pos (h.direct ▸ direct), h.disk]
    · rw [pwriteUnlocked, dif_neg direct, pwriteUnlocked, dif_neg (h.direct ▸ direct)]
  obtain ⟨same, pos, contents⟩ := same_view h.pos h.logical h.stuck acks (fun _ => h.disk)
  have direct : (step f op).2.direct = (step g op).2.direct := by
    rw [step_direct, step_direct, h.direct]
  have stuck : (step f op).2.Stuck ↔ (step g op).2.Stuck := by
    rw [stuck_step, stuck_step, h.stuck, h.direct, issued_congr h.pos]
  refine ⟨same, pos, direct, stuck, ?_, contents⟩
  rcases Bool.eq_false_or_eq_true f.direct with through | buffered
  · have throughF := (step_direct f op).trans through
    rw [← logical_direct throughF, ← logical_direct (direct ▸ throughF), contents]
  · rw [step_disk buffered, step_disk (h.direct ▸ buffered), h.logical, h.disk]

/-- The answer to a call is zero, the cursor stays, and from there on every answer and
the flushed file are those of the handle that did not make the call. -/
def Effectless (f : OpenFile) (call : FileOp) : Prop :=
  (step f call).1 = .ok ⟨0, []⟩ ∧ (step f call).2.pos = f.pos ∧
    ∀ ops, outputs step (step f call).2 ops = outputs step f ops ∧
      (run step (step f call).2 ops).fsync.2.disk = (run step f ops).fsync.2.disk

/-- The call writes no bytes, at an offset below the size limit. -/
structure EmptyWrite (f : OpenFile) (call : FileOp) (req : WriteReq) : Prop where
  issues : issued f call = some req
  empty : req.bytes.bytes = []
  inRange : req.pos < maxFileSize

theorem EmptyWrite.stores {f : OpenFile} {call : FileOp} {req : WriteReq}
    (write : EmptyWrite f call req) : req.Stores :=
  stores_of_empty write.inRange write.empty

/-- In either mode an empty write answers zero and leaves the cursor. -/
theorem empty_write_answer {f : OpenFile} {call : FileOp} {req : WriteReq}
    (write : EmptyWrite f call req) :
    (step f call).1 = .ok ⟨0, []⟩ ∧ (step f call).2.pos = f.pos := by
  have value : (f.pwriteUnlocked req.bytes req.pos).1 = .ok 0 := by
    rw [f.pwriteUnlocked_value write.stores, Span.sizeBytes, write.empty]
    rfl
  have kept : (f.pwriteUnlocked req.bytes req.pos).2.pos = f.pos :=
    (f.pwriteUnlocked_keeps req.bytes req.pos).1
  have issues := write.issues
  cases call with
  | write buf =>
    obtain rfl := Option.some.inj issues
    have nonneg : ¬(0 : I64).toInt < 0 := by decide
    have unmoved : f.pos + (0 : U64) = f.pos := BitVec.add_zero f.pos
    rw [step_write, value]
    simp only [moved, if_neg nonneg, kept, unmoved, and_true]
    rfl
  | pwrite buf offset =>
    obtain rfl := Option.some.inj issues
    simp only [step, OpenFile.pwrite, value, kept, and_true]
    rfl
  | read n => cases issues
  | pread n offset => cases issues
  | lseek offset whence => cases issues
  | fsync => cases issues

theorem empty_write_logical {f : OpenFile} {call : FileOp} {req : WriteReq}
    (write : EmptyWrite f call req) (free : ¬f.Stuck) :
    (step f call).2.logical.buffer = put 0 f.logical.buffer req.pos.toNat [] := by
  rw [logical_step, if_neg free, write.issues, ← write.empty]
  exact DiskFile.write_buffer write.stores

theorem empty_write_stuck {f : OpenFile} {call : FileOp} {req : WriteReq}
    (write : EmptyWrite f call req) : (step f call).2.Stuck ↔ f.Stuck := by
  rw [stuck_step, write.issues]
  refine or_iff_left ?_
  rintro ⟨-, r, same, throws⟩
  obtain rfl := Option.some.inj same
  exact write.stores.not_throws throws

/-- An empty write inside the file, or on a stuck handle, leaves a handle that is alike. -/
theorem empty_write_alike {f : OpenFile} {call : FileOp} {req : WriteReq}
    (write : EmptyWrite f call req)
    (inside : f.Stuck ∨ req.pos.toNat ≤ f.logical.buffer.length) :
    Alike (step f call).2 f := by
  have contents : (step f call).2.logical = f.logical := by
    by_cases stuck : f.Stuck
    · rw [logical_step, if_pos stuck]
    · apply DiskFile.ext
      rw [empty_write_logical write stuck, put_nil 0 (inside.resolve_left stuck)]
  refine ⟨(empty_write_answer write).2, step_direct f call, empty_write_stuck write, ?_, contents⟩
  rcases Bool.eq_false_or_eq_true f.direct with direct | buffered
  · rw [← logical_direct ((step_direct f call).trans direct), contents, logical_direct direct]
  · have queued : flushes call = false := by
      have issues := write.issues
      cases call with
      | write buf => rfl
      | pwrite buf offset => rfl
      | read n => cases issues
      | pread n offset => cases issues
      | lseek offset whence => cases issues
      | fsync => cases issues
    rw [step_disk buffered, queued]
    exact if_neg Bool.false_ne_true

theorem effectless_iff {f : OpenFile} {call : FileOp} {req : WriteReq}
    (write : EmptyWrite f call req) :
    Effectless f call ↔ f.Stuck ∨ req.pos.toNat ≤ f.logical.buffer.length := by
  obtain ⟨answer, stays⟩ := empty_write_answer write
  have flushed : ∀ g : OpenFile, g.fsync.2.disk = g.logical := fsyncUnlocked_disk
  constructor
  · rintro ⟨-, -, later⟩
    refine or_iff_not_imp_left.mpr fun free => ?_
    have size := congrArg (fun d => d.buffer.length) (later []).2
    simp only [run_nil, flushed, empty_write_logical write free, length_put,
      List.length_nil] at size
    omega
  · intro inside
    refine ⟨answer, stays, ?_⟩
    intro ops
    have all : Along step (fun _ _ => True) (step f call).2 ops :=
      along_of_forall (fun _ _ => trivial) _ ops
    obtain ⟨same, final⟩ := simulation Alike (fun _ _ op h _ => alike_step h op)
      (empty_write_alike write inside) all
    exact ⟨same, by rw [flushed, flushed, final.logical]⟩

/-- An empty write below the limit has no effect, if the call is one. -/
def NoEffect (f : OpenFile) (call : FileOp) : Prop :=
  ∀ req, EmptyWrite f call req → Effectless f call

/-- An empty write below the limit is not past the end of the logical file, or no flush will
get to it. -/
def Inside (f : OpenFile) (call : FileOp) : Prop :=
  ∀ req, EmptyWrite f call req → f.Stuck ∨ req.pos.toNat ≤ f.logical.buffer.length

theorem noEffect_iff (f : OpenFile) (call : FileOp) : NoEffect f call ↔ Inside f call :=
  forall_congr' fun _ => forall_congr' effectless_iff

/-- Along every run of a handle in either mode, the empty writes have no effect exactly if
each is on a stuck handle or not past the end of the logical file. -/
theorem empty_writes_effectless_iff (direct : Bool) (pos : U64) (disk : DiskFile)
    (ops : List FileOp) :
    Along step NoEffect (opened direct pos disk) ops ↔
      Along step Inside (opened direct pos disk) ops :=
  along_congr (fun _ => True) (fun f op _ => noEffect_iff f op) (fun _ _ _ _ => trivial) trivial

/-- Nothing written at offset 1 of an empty file: the file has a byte. -/
theorem empty_write_grows :
    ¬Along step NoEffect (opened true 0 .empty) [.pwrite ⟨[], by decide⟩ 1] := by
  rintro ⟨noEffect, -⟩
  obtain ⟨-, -, later⟩ := noEffect ⟨⟨[], by decide⟩, 1⟩ ⟨rfl, rfl, by decide⟩
  exact absurd (later []).2 (by decide)

end EmptyWrites
