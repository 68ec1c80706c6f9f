import Redstone.OpenFiles

/-!
# The backlog against the direct mode

Runs of calls on one handle. A buffered handle mirrors a direct one when its
logical file is the direct handle's disk file; every data-path call whose write ends
within the size limit keeps that and answers alike. A write that ends beyond it throws in
the direct mode and is queued in the buffered one. Acknowledged bytes are then followed
through the logical file to the next flush, and a seek to the end is compared with the
logical size.
-/

namespace BacklogRefinement

open MachineWords DiskStore StepRuns OpenFiles OpenFile WriteHistories

/-- What one issued write does to the logical file. -/
def applyIssued (d : DiskFile) : Option WriteReq → DiskFile
  | some req => (d.write req.pos req.bytes).2
  | none => d

/-- The handle after a call, but for its position. -/
def effect (f : OpenFile) : FileOp → OpenFile
  | .write buf => (f.pwriteUnlocked buf f.pos).2
  | .pwrite buf offset => (f.pwriteUnlocked buf offset).2
  | .read _ => f.fsyncUnlocked.2
  | .pread _ _ => f.fsyncUnlocked.2
  | .lseek _ _ => f
  | .fsync => f.fsyncUnlocked.2

/-- The handle once its position is advanced by a result that is no failure. -/
def moved (f : OpenFile) : Except Thrown I64 → OpenFile
  | .error _ => f
  | .ok result => if result.toInt < 0 then f else { f with pos := f.pos + result }

theorem moved_pos {f g : OpenFile} (pos : f.pos = g.pos) (result : Except Thrown I64) :
    (moved f result).pos = (moved g result).pos := by
  cases result with
  | error e => exact pos
  | ok v =>
    simp only [moved]
    split
    · exact pos
    · exact congrArg (· + v) pos

theorem moved_only (f : OpenFile) (result : Except Thrown I64) :
    ∃ pos, moved f result = { f with pos := pos } := by
  cases result with
  | error e => exact ⟨f.pos, rfl⟩
  | ok v =>
    simp only [moved]
    split
    · exact ⟨f.pos, rfl⟩
    · exact ⟨_, rfl⟩

theorem step_write (f : OpenFile) (buf : Span) :
    step f (.write buf) = ((f.pwriteUnlocked buf f.pos).1.map (⟨·, []⟩),
      moved (f.pwriteUnlocked buf f.pos).2 (f.pwriteUnlocked buf f.pos).1) := by
  cases result : (f.pwriteUnlocked buf f.pos).1 with
  | error e => simp only [step, OpenFile.write, result, moved]
  | ok v =>
    by_cases failed : v.toInt < 0
    · simp only [step, OpenFile.write, result, moved, if_pos failed]
    · simp only [step, OpenFile.write, result, moved, if_neg failed]

theorem step_read (f : OpenFile) (n : Nat) :
    step f (.read n) = ((f.preadUnlocked n f.pos).1.map fun r => ⟨r.1, r.2⟩,
      moved (f.preadUnlocked n f.pos).2 ((f.preadUnlocked n f.pos).1.map Prod.fst)) := by
  cases result : (f.preadUnlocked n f.pos).1 with
  | error e => simp only [step, OpenFile.read, result, Except.map, moved]
  | ok v =>
    by_cases failed : v.1.toInt < 0
    · simp only [step, OpenFile.read, result, Except.map, moved, if_pos failed]
    · simp only [step, OpenFile.read, result, Except.map, moved, if_neg failed]

theorem step_effect (f : OpenFile) (op : FileOp) :
    ∃ pos, (step f op).2 = { effect f op with pos := pos } := by
  cases op with
  | write buf =>
    rw [step_write]
    exact moved_only _ _
  | read n =>
    rw [step_read, preadUnlocked_spec]
    exact moved_only _ _
  | lseek offset whence =>
    simp only [step, OpenFile.lseek, effect]
    split
    · exact ⟨_, rfl⟩
    · split
      · exact ⟨_, rfl⟩
      · split
        · exact ⟨_, rfl⟩
        · exact ⟨f.pos, rfl⟩
  | pwrite buf offset => exact ⟨_, rfl⟩
  | pread n offset =>
    simp only [step, OpenFile.pread, preadUnlocked_spec]
    exact ⟨_, rfl⟩
  | fsync => exact ⟨_, rfl⟩

/-- The single effect of a call on the logical file is the write it issues, and on a stuck
handle there is none. -/
theorem logical_step (f : OpenFile) (op : FileOp) :
    (step f op).2.logical =
      if f.Stuck then f.logical else applyIssued f.logical (issued f op) := by
  obtain ⟨pos, same⟩ := step_effect f op
  rw [same]
  cases op with
  | write buf => exact f.pwriteUnlocked_logical buf f.pos
  | pwrite buf offset => exact f.pwriteUnlocked_logical buf offset
  | read n => exact f.fsyncUnlocked_logical.trans (ite_self _).symm
  | pread n offset => exact f.fsyncUnlocked_logical.trans (ite_self _).symm
  | lseek offset whence => exact (ite_self _).symm
  | fsync => exact f.fsyncUnlocked_logical.trans (ite_self _).symm

/-- A handle gets stuck by a queued write that throws, and stays so. -/
theorem stuck_step (f : OpenFile) (op : FileOp) :
    (step f op).2.Stuck ↔ f.Stuck ∨ f.direct = false ∧ ∃ req ∈ issued f op, req.Throws := by
  have silent : issued f op = none →
      (f.Stuck ↔ f.Stuck ∨ f.direct = false ∧ ∃ req ∈ issued f op, req.Throws) := by
    intro none
    simp [none]
  have issues : ∀ req, issued f op = some req →
      (Throws req.pos req.bytes ↔ ∃ r ∈ issued f op, r.Throws) := by
    intro req some
    simp [some, WriteReq.Throws]
  obtain ⟨pos, same⟩ := step_effect f op
  rw [same]
  cases op with
  | write buf =>
    refine (f.pwriteUnlocked_stuck buf f.pos).trans ?_
    rw [← issues ⟨buf, f.pos⟩ rfl]
  | pwrite buf offset =>
    refine (f.pwriteUnlocked_stuck buf offset).trans ?_
    rw [← issues ⟨buf, offset⟩ rfl]
  | read n => exact f.fsyncUnlocked_stuck.trans (silent rfl)
  | pread n offset => exact f.fsyncUnlocked_stuck.trans (silent rfl)
  | lseek offset whence => exact silent rfl
  | fsync => exact f.fsyncUnlocked_stuck.trans (silent rfl)

theorem issued_congr {f g : OpenFile} (pos : f.pos = g.pos) (op : FileOp) :
    issued f op = issued g op := by
  cases op <;> simp only [issued, pos]

theorem step_direct (f : OpenFile) (op : FileOp) : (step f op).2.direct = f.direct := by
  obtain ⟨pos, same⟩ := step_effect f op
  rw [same]
  cases op with
  | write buf => exact (f.pwriteUnlocked_keeps buf f.pos).2
  | pwrite buf offset => exact (f.pwriteUnlocked_keeps buf offset).2
  | read n => exact fsyncUnlocked_direct f
  | pread n offset => exact fsyncUnlocked_direct f
  | lseek offset whence => rfl
  | fsync => exact fsyncUnlocked_direct f

def seeksEnd : FileOp → Bool
  | .lseek _ whence => whence = SEEK_END
  | _ => false

/-- A call sees a handle through its position, its logical file and whether it is stuck
only, but for the acknowledgement of a write and a seek to the end. -/
theorem same_view {f g : OpenFile} {op : FileOp} (pos : f.pos = g.pos)
    (logical : f.logical = g.logical) (stuck : f.Stuck ↔ g.Stuck)
    (acks : ∀ req ∈ issued f op,
      (f.pwriteUnlocked req.bytes req.pos).1 = (g.pwriteUnlocked req.bytes req.pos).1)
    (ends : seeksEnd op = true → f.disk = g.disk) :
    (step f op).1 = (step g op).1 ∧ (step f op).2.pos = (step g op).2.pos ∧
      (step f op).2.logical = (step g op).2.logical := by
  have contents : (step f op).2.logical = (step g op).2.logical := by
    simp only [logical_step, logical, issued_congr pos, stuck]
  have answers : ∀ n offset, (f.preadUnlocked n offset).1 = (g.preadUnlocked n offset).1 := by
    intro n offset
    simp only [preadUnlocked_spec, logical, stuck]
  have written : ∀ buf offset, (f.pwriteUnlocked buf offset).2.pos =
      (g.pwriteUnlocked buf offset).2.pos := by
    intro buf offset
    rw [(f.pwriteUnlocked_keeps buf offset).1, (g.pwriteUnlocked_keeps buf offset).1, pos]
  have flushed : f.fsyncUnlocked.2.pos = g.fsyncUnlocked.2.pos := by
    rw [fsyncUnlocked_pos, fsyncUnlocked_pos, pos]
  have read : ∀ n offset, (f.preadUnlocked n offset).2.pos = (g.preadUnlocked n offset).2.pos := by
    intro n offset
    rw [preadUnlocked_spec, preadUnlocked_spec, flushed]
  suffices (step f op).1 = (step g op).1 ∧ (step f op).2.pos = (step g op).2.pos from
    ⟨this.1, this.2, contents⟩
  cases op with
  | write buf =>
    have same := acks ⟨buf, f.pos⟩ rfl
    rw [step_write, step_write, ← pos, ← same]
    exact ⟨rfl, moved_pos (written buf f.pos) _⟩
  | pwrite buf offset =>
    have same := acks ⟨buf, offset⟩ rfl
    simp only [step, OpenFile.pwrite, same]
    exact ⟨trivial, written buf offset⟩
  | read n =>
    rw [step_read, step_read, ← pos, ← answers]
    exact ⟨rfl, moved_pos (read n f.pos) _⟩
  | pread n offset =>
    simp only [step, OpenFile.pread, answers]
    exact ⟨trivial, read n offset⟩
  | lseek offset whence =>
    simp only [step, OpenFile.lseek]
    by_cases set : whence = SEEK_SET
    · simp only [if_pos set, and_self]
    · by_cases cur : whence = SEEK_CUR
      · simp only [if_neg set, if_pos cur, pos, and_self]
      · by_cases fromEnd : whence = SEEK_END
        · have disk : f.disk = g.disk := ends (decide_eq_true fromEnd)
          simp only [if_neg set, if_neg cur, if_pos fromEnd, disk, and_self]
        · simp only [if_neg set, if_neg cur, if_neg fromEnd, pos, and_self]
  | fsync =>
    have done : f.fsyncUnlocked.1 = g.fsyncUnlocked.1 := by
      simp only [f.fsyncUnlocked_spec.1, g.fsyncUnlocked_spec.1, stuck]
    simp only [step, OpenFile.fsync, done]
    exact ⟨trivial, flushed⟩

theorem step_value {f : OpenFile} {op : FileOp} {req : WriteReq} (h : issued f op = some req) :
    (step f op).1 = (f.pwriteUnlocked req.bytes req.pos).1.map (⟨·, []⟩) := by
  cases op with
  | write buf =>
    cases h
    rw [step_write]
  | pwrite buf offset =>
    cases h
    rfl
  | read n => cases h
  | pread n offset => cases h
  | lseek offset whence => cases h
  | fsync => cases h

/-- A buffered handle whose logical file is the direct handle's disk file. -/
structure Mirrors (direct buffered : OpenFile) : Prop where
  isDirect : direct.direct = true
  isBuffered : buffered.direct = false
  free : ¬buffered.Stuck
  pos : direct.pos = buffered.pos
  disk : direct.disk = buffered.logical

theorem opened_free (direct : Bool) (pos : U64) (disk : DiskFile) :
    ¬(opened direct pos disk).Stuck := fun ⟨_, member, _⟩ => List.not_mem_nil member

theorem mirrors_opened (pos : U64) (disk : DiskFile) :
    Mirrors (opened true pos disk) (opened false pos disk) :=
  ⟨rfl, rfl, opened_free false pos disk, rfl, rfl⟩

/-- Writes start below the size limit, and no call seeks to the end. -/
def DataPath (f : OpenFile) (op : FileOp) : Prop :=
  InRange f op ∧ seeksEnd op = false

instance (f : OpenFile) (op : FileOp) : Decidable (DataPath f op) :=
  inferInstanceAs (Decidable (InRange f op ∧ seeksEnd op = false))

/-- Every write the call issues ends within the size limit. -/
def Within (f : OpenFile) (op : FileOp) : Prop :=
  ∀ req ∈ issued f op, req.pos.toNat + req.bytes.bytes.length ≤ maxFileSize.toNat

instance (f : OpenFile) (op : FileOp) : Decidable (Within f op) :=
  inferInstanceAs (Decidable (∀ req ∈ issued f op, _ ≤ _))

theorem stores_of_within {f : OpenFile} {op : FileOp} (path : DataPath f op)
    (within : Within f op) : ∀ req ∈ issued f op, req.Stores :=
  fun req issues => ⟨path.1 req issues, within req issues⟩

/-- One call answers alike in both modes and keeps them mirrored. -/
theorem mirrors_step {d b : OpenFile} {op : FileOp} (h : Mirrors d b) (path : DataPath d op)
    (within : Within d op) :
    (step d op).1 = (step b op).1 ∧ Mirrors (step d op).2 (step b op).2 := by
  have stores := stores_of_within path within
  have logical : d.logical = b.logical := (logical_direct h.isDirect).trans h.disk
  have acks : ∀ req ∈ issued d op,
      (d.pwriteUnlocked req.bytes req.pos).1 = (b.pwriteUnlocked req.bytes req.pos).1 := by
    intro req issues
    rw [d.pwriteUnlocked_value (stores req issues), b.pwriteUnlocked_value (stores req issues)]
  have ends : seeksEnd op = true → d.disk = b.disk := fun seeks =>
    absurd (path.2.symm.trans seeks) Bool.false_ne_true
  have stuck : d.Stuck ↔ b.Stuck := iff_of_false (not_stuck h.isDirect) h.free
  obtain ⟨same, pos, contents⟩ := same_view h.pos logical stuck acks ends
  have isDirect : (step d op).2.direct = true := (step_direct d op).trans h.isDirect
  refine ⟨same, isDirect, (step_direct b op).trans h.isBuffered, ?_, pos, ?_⟩
  · rw [stuck_step, ← issued_congr h.pos]
    rintro (stuck | ⟨-, req, issues, throws⟩)
    · exact h.free stuck
    · exact (stores req issues).not_throws throws
  · rw [← logical_direct isDirect, contents]

/-- A write that ends beyond the limit tells the two modes apart. -/
theorem within_of_same {d b : OpenFile} {op : FileOp} (h : Mirrors d b) (path : DataPath d op)
    (same : (step d op).1 = (step b op).1) : Within d op := by
  intro req issues
  by_contra beyond
  have throws : Throws req.pos req.bytes := ⟨path.1 req issues, Nat.not_le.mp beyond⟩
  have issues' : issued b op = some req := issued_congr h.pos op ▸ issues
  have refused : (d.pwriteUnlocked req.bytes req.pos).1 = .error .lengthError := by
    rw [pwriteUnlocked, dif_pos h.isDirect]
    exact DiskFile.write_error_iff.mpr throws
  rw [step_value issues, step_value issues', refused, pwriteUnlocked_buffered h.isBuffered] at same
  cases same

/-- Both modes answer alike, are at the same position after every call, and leave the same
file after a final flush. -/
def Agree (pos : U64) (disk : DiskFile) (ops : List FileOp) : Prop :=
  outputs step (opened true pos disk) ops = outputs step (opened false pos disk) ops ∧
    (∀ n, (run step (opened true pos disk) (ops.take n)).pos =
      (run step (opened false pos disk) (ops.take n)).pos) ∧
    (run step (opened false pos disk) ops).fsync.2.disk =
      (run step (opened true pos disk) ops).disk

theorem along_within {d b : OpenFile} {ops : List FileOp} (h : Mirrors d b)
    (path : Along step DataPath d ops) (same : outputs step d ops = outputs step b ops) :
    Along step Within d ops := by
  induction ops generalizing d b with
  | nil => trivial
  | cons op rest ih =>
    obtain ⟨here, later⟩ := path
    obtain ⟨head, tail⟩ := List.cons.inj same
    have within := within_of_same h here head
    exact ⟨within, ih (mirrors_step h here within).2 later tail⟩

/-- On the data path, buffered refines direct exactly if every write ends within the size
limit. -/
theorem buffered_refines_direct_iff (pos : U64) (disk : DiskFile) (ops : List FileOp)
    (path : Along step DataPath (opened true pos disk) ops) :
    Agree pos disk ops ↔ Along step Within (opened true pos disk) ops := by
  refine ⟨fun agree => along_within (mirrors_opened pos disk) path agree.1, fun within => ?_⟩
  have both : Along step (fun f op => DataPath f op ∧ Within f op) (opened true pos disk) ops :=
    along_and.mpr ⟨path, within⟩
  have lockstep : ∀ d b op, Mirrors d b → DataPath d op ∧ Within d op →
      (step d op).1 = (step b op).1 ∧ Mirrors (step d op).2 (step b op).2 :=
    fun _ _ _ h path => mirrors_step h path.1 path.2
  have whole := simulation Mirrors lockstep (mirrors_opened pos disk) both
  refine ⟨whole.1, ?_, ?_⟩
  · intro n
    rw [← List.take_append_drop n ops] at both
    have front := ((along_append _ _ _).mp both).1
    exact (simulation Mirrors lockstep (mirrors_opened pos disk) front).2.pos
  · exact (fsyncUnlocked_disk _).trans whole.2.disk.symm

/-- Overlapping and gap-creating writes, a read that flushes and an unknown whence. -/
theorem buffered_refines_direct_overlap :
    Agree 2 .empty [.write ⟨[1, 2, 3], by decide⟩, .pwrite ⟨[9], by decide⟩ 7,
      .lseek 1 SEEK_SET, .read 4, .write ⟨[], by decide⟩, .lseek 0 5] :=
  (buffered_refines_direct_iff 2 .empty _ (by decide)).mpr (by decide)

/-- Two bytes one below the limit: the direct handle throws, the buffered one answers 2. -/
theorem modes_differ_at_limit :
    Along step DataPath (opened true 0 .empty) [.pwrite ⟨[1, 2], by decide⟩ 0x7ffffffffffffffe] ∧
      ¬Agree 0 .empty [.pwrite ⟨[1, 2], by decide⟩ 0x7ffffffffffffffe] := by
  refine ⟨by decide, fun agree => ?_⟩
  exact absurd agree.1 (by decide)

/-! ## Acknowledged writes -/

/-- A write that was answered with a non-negative count. -/
structure Ack where
  req : WriteReq
  count : Nat

def Ack.Covers (a : Ack) (i : Nat) : Prop :=
  a.req.pos.toNat ≤ i ∧ i < a.req.pos.toNat + a.count

def ackOf (f : OpenFile) (op : FileOp) : List Ack :=
  match issued f op, (step f op).1 with
  | some req, .ok reply => if reply.value.toInt < 0 then [] else [⟨req, reply.value.toNat⟩]
  | _, _ => []

/-- The acknowledged writes of a run, oldest first. -/
def acknowledged (f : OpenFile) : List FileOp → List Ack
  | [] => []
  | op :: rest => ackOf f op ++ acknowledged (step f op).2 rest

/-- The acknowledged bytes are in the file, but for those a later one covers. -/
def Stored (disk : DiskFile) (a : Ack) (later : List Ack) : Prop :=
  ∀ j < a.count, (∀ b ∈ later, ¬b.Covers (a.req.pos.toNat + j)) →
    disk.buffer[a.req.pos.toNat + j]? = a.req.bytes.bytes[j]?

/-- The flush after the run reports a failure by a negative value, or every acknowledged
write of the run is stored. -/
def NoneLost (f : OpenFile) (calls : List FileOp) : Prop :=
  (∃ v, (run step f calls).fsync.1 = .ok v ∧ v.toInt < 0) ∨
    ∀ earlier a later, acknowledged f calls = earlier ++ a :: later →
      Stored (run step f calls).fsync.2.disk a later

/-- Every write the call issues is empty or ends within the size limit. -/
def Storable (f : OpenFile) (op : FileOp) : Prop :=
  ∀ req ∈ issued f op, req.bytes.bytes = [] ∨
    req.pos.toNat + req.bytes.bytes.length ≤ maxFileSize.toNat

instance (f : OpenFile) (op : FileOp) : Decidable (Storable f op) :=
  inferInstanceAs (Decidable (∀ req ∈ issued f op, _ ∨ _))

/-- A buffered handle acknowledges every write with its full length. -/
theorem ackOf_buffered {f : OpenFile} (buffered : f.direct = false) (op : FileOp) :
    ackOf f op = (issued f op).toList.map fun req => ⟨req, req.bytes.bytes.length⟩ := by
  cases h : issued f op with
  | none => simp only [ackOf, h, Option.toList_none, List.map_nil]
  | some req =>
    have size := req.bytes.sizeBytes_toInt
    simp only [ackOf, h, step_value h, pwriteUnlocked_buffered buffered, Except.map,
      req.bytes.sizeBytes_toNat, Option.toList_some, List.map_cons, List.map_nil]
    rw [if_neg (by omega)]

/-- A byte no acknowledged write covers keeps its value through the run. -/
theorem uncovered_kept {f : OpenFile} {calls : List FileOp} {i : Nat} {b : Byte}
    (buffered : f.direct = false) (old : f.logical.buffer[i]? = some b)
    (uncovered : ∀ a ∈ acknowledged f calls, ¬a.Covers i) :
    (run step f calls).logical.buffer[i]? = some b := by
  induction calls generalizing f with
  | nil => exact old
  | cons op rest ih =>
    simp only [acknowledged, List.mem_append] at uncovered
    refine ih ((step_direct f op).trans buffered) ?_ fun a ha => uncovered a (Or.inr ha)
    rw [logical_step]
    by_cases stuck : f.Stuck
    · rwa [if_pos stuck]
    · rw [if_neg stuck]
      cases issues : issued f op with
      | none => exact old
      | some req =>
        refine DiskFile.write_keeps old (uncovered ⟨req, req.bytes.bytes.length⟩ (Or.inl ?_))
        rw [ackOf_buffered buffered, issues]
        exact List.mem_singleton_self _

theorem storable_free {f : OpenFile} {op : FileOp} (free : ¬f.Stuck) (storable : Storable f op) :
    ¬(step f op).2.Stuck := by
  rw [stuck_step]
  rintro (stuck | ⟨-, req, issues, throws⟩)
  · exact free stuck
  · rcases storable req issues with empty | ends
    · exact (stores_of_empty throws.1 empty).not_throws throws
    · exact Nat.not_lt.mpr ends throws.2

/-- While all writes can be stored, an acknowledged one is: whatever is called between it
and the flush, and whatever else was acknowledged. -/
theorem acknowledged_write_stored {f : OpenFile} {calls : List FileOp} {earlier later : List Ack}
    {a : Ack} (buffered : f.direct = false) (free : ¬f.Stuck)
    (storable : Along step Storable f calls)
    (split : acknowledged f calls = earlier ++ a :: later) :
    Stored (run step f calls).fsync.2.disk a later := by
  induction calls generalizing f earlier with
  | nil =>
    have impossible := congrArg List.length split
    simp [acknowledged] at impossible
  | cons op rest ih =>
    obtain ⟨here, after⟩ := storable
    have buffered' : (step f op).2.direct = false := (step_direct f op).trans buffered
    have free' := storable_free free here
    rw [acknowledged, ackOf_buffered buffered] at split
    cases issues : issued f op with
    | none =>
      rw [issues] at split
      exact ih buffered' free' after split
    | some req =>
      rw [issues] at split
      cases earlier with
      | cons first earlier => exact ih buffered' free' after (List.cons.inj split).2
      | nil =>
        -- this call is the acknowledged write itself
        obtain ⟨rfl, rfl⟩ := List.cons.inj split
        intro j hj uncovered
        change j < req.bytes.bytes.length at hj
        have ends : req.pos.toNat + req.bytes.bytes.length ≤ maxFileSize.toNat := by
          refine (here req issues).resolve_left fun empty => ?_
          rw [empty] at hj
          exact absurd hj (Nat.not_lt_zero j)
        have stores : Stores req.pos req.bytes := by
          refine ⟨?_, ends⟩
          rw [BitVec.lt_def]
          omega
        have stored : (step f op).2.logical.buffer[req.pos.toNat + j]? =
            some req.bytes.bytes[j] := by
          rw [logical_step, if_neg free, issues, applyIssued, DiskFile.write_stores stores hj,
            List.getElem?_eq_getElem hj]
        change (run step (step f op).2 rest).fsyncUnlocked.2.disk.buffer[_]? = _
        rw [fsyncUnlocked_disk, uncovered_kept buffered' stored uncovered,
          List.getElem?_eq_getElem hj]

/-- Of the members with a property there is a last one. -/
theorem exists_last {α : Type} {P : α → Prop} {l : List α} {a : α} (member : a ∈ l) (here : P a) :
    ∃ earlier b later, l = earlier ++ b :: later ∧ P b ∧ ∀ c ∈ later, ¬P c := by
  induction l generalizing a with
  | nil => cases member
  | cons first rest ih =>
    by_cases behind : ∃ c ∈ rest, P c
    · obtain ⟨c, inside, there⟩ := behind
      obtain ⟨earlier, b, later, split, last⟩ := ih inside there
      exact ⟨first :: earlier, b, later, by rw [split, List.cons_append], last⟩
    · have none : ∀ c ∈ rest, ¬P c := fun c inside there => behind ⟨c, inside, there⟩
      rcases List.mem_cons.mp member with rfl | inside
      · exact ⟨[], a, rest, rfl, here, none⟩
      · exact absurd here (none a inside)

/-- Every acknowledged write of a buffered handle was issued at some state of the run. -/
theorem along_storable {f : OpenFile} {calls : List FileOp} (buffered : f.direct = false)
    (all : ∀ a ∈ acknowledged f calls, a.req.bytes.bytes = [] ∨
      a.req.pos.toNat + a.req.bytes.bytes.length ≤ maxFileSize.toNat) :
    Along step Storable f calls := by
  induction calls generalizing f with
  | nil => trivial
  | cons op rest ih =>
    simp only [acknowledged, List.mem_append] at all
    refine ⟨fun req issues => ?_, ih ((step_direct f op).trans buffered) fun a ha =>
      all a (Or.inr ha)⟩
    refine all ⟨req, req.bytes.bytes.length⟩ (Or.inl ?_)
    rw [ackOf_buffered buffered, Option.mem_def.mp issues]
    exact List.mem_singleton_self _

theorem ack_count {f : OpenFile} {calls : List FileOp} (buffered : f.direct = false) :
    ∀ a ∈ acknowledged f calls, a.count = a.req.bytes.bytes.length := by
  induction calls generalizing f with
  | nil => exact fun a member => absurd member List.not_mem_nil
  | cons op rest ih =>
    intro a member
    rw [acknowledged, ackOf_buffered buffered, List.mem_append] at member
    rcases member with now | later
    · obtain ⟨req, -, rfl⟩ := List.mem_map.mp now
      rfl
    · exact ih ((step_direct f op).trans buffered) a later

/-- No acknowledged write of a run of a new buffered handle is lost exactly if each is empty
or ends within the size limit. -/
theorem acknowledged_stored_iff (pos : U64) (disk : DiskFile) (calls : List FileOp) :
    NoneLost (opened false pos disk) calls ↔ Along step Storable (opened false pos disk) calls := by
  constructor
  · rintro (⟨v, returned, negative⟩ | stored)
    · have done := (run step (opened false pos disk) calls).fsyncUnlocked_spec.1.symm.trans returned
      split at done
      · cases done
      · cases done
        exact absurd negative (by decide)
    refine along_storable rfl fun a member => ?_
    by_contra unstorable
    obtain ⟨filled, beyond⟩ := not_or.mp unstorable
    have some := List.length_pos_iff.mpr filled
    -- the last byte of the write is beyond the limit, and so is the last write over it
    have covered : a.Covers (a.req.pos.toNat + a.req.bytes.bytes.length - 1) := by
      rw [Ack.Covers, ack_count rfl a member]
      omega
    obtain ⟨earlier, b, later, split, covers, uncovered⟩ :=
      exists_last (P := fun a' => a'.Covers (a.req.pos.toNat + a.req.bytes.bytes.length - 1))
        member covered
    have inside : b.req.pos.toNat + (a.req.pos.toNat + a.req.bytes.bytes.length - 1 -
        b.req.pos.toNat) = a.req.pos.toNat + a.req.bytes.bytes.length - 1 := by
      have := covers.1
      omega
    have count := ack_count rfl b (split ▸ List.mem_append_right _ List.mem_cons_self)
    have short : a.req.pos.toNat + a.req.bytes.bytes.length - 1 - b.req.pos.toNat < b.count := by
      have := covers.2
      omega
    have found := stored earlier b later split _ short (by rwa [inside])
    rw [count] at short
    rw [inside, List.getElem?_eq_getElem short] at found
    obtain ⟨there, -⟩ := List.getElem?_eq_some_iff.mp found
    have fits := (run step (opened false pos disk) calls).fsync.2.disk.fits
    have same : vectorMaxSize.toNat = maxFileSize.toNat := rfl
    omega
  · exact fun storable => Or.inr fun earlier a later split =>
      acknowledged_write_stored rfl (opened_free false pos disk) storable split

/-- One byte written at the size limit is acknowledged and never reaches the file, and the
flush returns zero. -/
theorem write_at_limit_lost :
    ¬NoneLost (opened false 0 .empty) [.pwrite ⟨[0x61], by decide⟩ maxFileSize] := by
  rw [acknowledged_stored_iff]
  decide

/-! ## Seeking to the end -/

/-- A call queues nothing but the write it issues. -/
theorem backlog_step {f : OpenFile} {op : FileOp} {req : WriteReq}
    (mem : req ∈ (step f op).2.writeBacklog) :
    req ∈ f.writeBacklog ∨ issued f op = some req := by
  have queued : ∀ buf offset, req ∈ (f.pwriteUnlocked buf offset).2.writeBacklog →
      req ∈ f.writeBacklog ∨ some ⟨buf, offset⟩ = some req := by
    intro buf offset h
    by_cases direct : f.direct = true
    · rw [OpenFile.pwriteUnlocked, dif_pos direct] at h
      exact Or.inl h
    · rw [OpenFile.pwriteUnlocked, dif_neg direct] at h
      rcases List.mem_append.mp h with old | new
      · exact Or.inl old
      · exact Or.inr (congrArg some (List.mem_singleton.mp new).symm)
  have left : req ∈ f.fsyncUnlocked.2.writeBacklog → req ∈ f.writeBacklog := by
    rw [f.fsyncUnlocked_spec.2.2.1]
    split
    · exact id
    · exact fun none => absurd none List.not_mem_nil
  obtain ⟨pos, same⟩ := step_effect f op
  rw [same] at mem
  cases op with
  | write buf => exact queued buf f.pos mem
  | pwrite buf offset => exact queued buf offset mem
  | read n => exact Or.inl (left mem)
  | pread n offset => exact Or.inl (left mem)
  | lseek offset whence => exact Or.inl mem
  | fsync => exact Or.inl (left mem)

/-- A seek to the end lands `off` past the size the file has once flushed. -/
def SeekEndExact (f : OpenFile) (off : U64) : Prop :=
  (f.lseek off SEEK_END).2.pos = f.fsync.2.disk.getSize + off

/-- Every queued write that a flush gets to ends inside the disk file as it is now. -/
def PendingInside (f : OpenFile) : Prop :=
  ∀ req ∈ reached f.writeBacklog,
    req.pos.toNat + req.bytes.bytes.length ≤ f.disk.buffer.length

instance (f : OpenFile) : Decidable (PendingInside f) :=
  inferInstanceAs (Decidable (∀ req ∈ reached f.writeBacklog, _ ≤ _))

theorem seekEndExact_iff_length (f : OpenFile) (off : U64) :
    SeekEndExact f off ↔ f.disk.buffer.length = f.logical.buffer.length := by
  have moved : (f.lseek off SEEK_END).2.pos = f.disk.getSize + off := rfl
  have flushed : f.fsync.2.disk = f.logical := fsyncUnlocked_disk f
  rw [SeekEndExact, moved, flushed, BitVec.add_left_inj, ← BitVec.toNat_inj,
    DiskFile.getSize_toNat, DiskFile.getSize_toNat]

/-- The requests that a flush gets to are stored, if they start below the limit. -/
theorem reached_stores {backlog : List WriteReq}
    (inRange : ∀ req ∈ backlog, req.pos < maxFileSize) : ∀ req ∈ reached backlog, req.Stores := by
  intro req member
  obtain ⟨queued, passes⟩ := mem_reached member
  exact (stores_or_throws req.bytes (inRange req queued)).resolve_right passes

/-- After any run in either mode whose writes start below the size limit, a seek to the end
counts the pending data exactly when none of what a flush would store ends past the disk
file. -/
theorem seek_end_exact_iff (direct : Bool) (pos : U64) (disk : DiskFile) (ops : List FileOp)
    (inRange : Along step InRange (opened direct pos disk) ops) (off : U64) :
    SeekEndExact (run step (opened direct pos disk) ops) off ↔
      PendingInside (run step (opened direct pos disk) ops) := by
  have queued : ∀ req ∈ (run step (opened direct pos disk) ops).writeBacklog,
      req.pos < maxFileSize := by
    refine run_invariant (fun f => ∀ req ∈ f.writeBacklog, req.pos < maxFileSize) ?_ ?_ inRange
    · intro f op old admitted req mem
      rcases backlog_step mem with pending | now
      · exact old req pending
      · exact admitted req now
    · intro req mem
      cases mem
  have stores := reached_stores queued
  generalize run step (opened direct pos disk) ops = f at stores ⊢
  have all : patches (reached f.writeBacklog) = (reached f.writeBacklog).map WriteReq.patch := by
    rw [patches, List.filter_eq_self.mpr fun req member => decide_eq_true (stores req member)]
  rw [seekEndExact_iff_length, logical_eq, storeAll_buffer, length_replay, all]
  calc f.disk.buffer.length = max f.disk.buffer.length (reach _)
      ↔ reach _ ≤ f.disk.buffer.length := by omega
    _ ↔ ∀ p ∈ (reached f.writeBacklog).map WriteReq.patch, p.stop ≤ f.disk.buffer.length :=
      reach_le_iff
    _ ↔ PendingInside f := List.forall_mem_map

/-- One queued byte on an empty file: the seek lands at 0, the flushed size is 1. -/
theorem seek_end_misses_pending :
    Along step InRange (opened false 0 .empty) [.write ⟨[0x61], by decide⟩] ∧
      ¬SeekEndExact (run step (opened false 0 .empty) [.write ⟨[0x61], by decide⟩]) 0 := by
  refine ⟨by decide, ?_⟩
  rw [seekEndExact_iff_length]
  decide

/-- A queued overwrite inside the file does not disturb the seek, nor does a write behind it
at which the flush throws. -/
theorem seek_end_exact_overwrite :
    SeekEndExact (run step (opened false 0 ⟨[1, 2, 3], by decide⟩)
      [.write ⟨[7, 8], by decide⟩, .pwrite ⟨[1, 2], by decide⟩ 0x7ffffffffffffffe]) 5 :=
  (seek_end_exact_iff false 0 ⟨[1, 2, 3], by decide⟩
    [.write ⟨[7, 8], by decide⟩, .pwrite ⟨[1, 2], by decide⟩ 0x7ffffffffffffffe]
    (by decide) 5).mpr (by decide)

end BacklogRefinement
