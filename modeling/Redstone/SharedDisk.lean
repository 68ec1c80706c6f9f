import Mathlib.Data.List.Induction
import Redstone.OpenFiles
import Redstone.WriteHistories

/-!
# Handles that share a disk file

Several buffered handles are open on one file, and their calls come in any order. A write
waits in the backlog of its handle until that handle flushes. What the flushes of a handle
store depends on its own calls only, also when they throw: a stuck handle stores the writes
before the one that throws again and again. So in any two schedules of the same calls the
file has seen the same writes of each handle, in the order of that handle.
-/

namespace SharedDisk

open MachineWords DiskStore OpenFiles StepRuns WriteHistories

variable {τ : Type}

/-- The handles, all on the same file. -/
structure Sharing (τ : Type) where
  handles : τ → OpenFile
  shared : ∀ s t, (handles s).disk = (handles t).disk

/-- Buffered handles, freshly opened at any positions. -/
def opens (pos : τ → U64) (disk : DiskFile) : Sharing τ where
  handles := fun t => opened false (pos t) disk
  shared := fun _ _ => rfl

variable [DecidableEq τ]

/-- One call on one handle; what it does to the file, all handles see. -/
def step (m : Sharing τ) (e : τ × FileOp) : Except Thrown Reply × Sharing τ :=
  let (reply, after) := OpenFiles.step (m.handles e.1) e.2
  (reply,
    { handles := fun s => if s = e.1 then after else { m.handles s with disk := after.disk }
      shared := by
        intro s t
        split <;> split <;> rfl })

theorem handles_self (m : Sharing τ) (t : τ) (op : FileOp) :
    (step m (t, op)).2.handles t = (OpenFiles.step (m.handles t) op).2 :=
  if_pos rfl

theorem handles_other {s t : τ} (other : s ≠ t) (m : Sharing τ) (op : FileOp) :
    (step m (t, op)).2.handles s =
      { m.handles s with disk := (OpenFiles.step (m.handles t) op).2.disk } :=
  if_neg other

theorem handles_disk (m : Sharing τ) (s t : τ) (op : FileOp) :
    ((step m (t, op)).2.handles s).disk = (OpenFiles.step (m.handles t) op).2.disk := by
  rw [(step m (t, op)).2.shared s t, handles_self]

/-- Positional calls, writes starting below the size limit. -/
def Positional : FileOp → Prop
  | .pwrite _ offset => offset < maxFileSize
  | .pread _ _ => True
  | .fsync => True
  | _ => False

instance : (op : FileOp) → Decidable (Positional op)
  | .pwrite _ offset => inferInstanceAs (Decidable (offset < maxFileSize))
  | .pread _ _ => isTrue trivial
  | .fsync => isTrue trivial
  | .write _ => isFalse id
  | .read _ => isFalse id
  | .lseek _ _ => isFalse id

def queued : FileOp → Option WriteReq
  | .pwrite buf offset => some ⟨buf, offset⟩
  | _ => none

/-- The writes of a schedule, each with its handle. -/
def requests (calls : List (τ × FileOp)) : List (τ × WriteReq) :=
  calls.filterMap fun e => (queued e.2).map fun req => (e.1, req)

/-- No byte is in the ranges of writes by two handles. -/
def Apart (calls : List (τ × FileOp)) : Prop :=
  ∀ a ∈ requests calls, ∀ b ∈ requests calls, a.1 ≠ b.1 →
    ∀ i, a.2.patch.Covers i → ¬b.2.patch.Covers i

/-! ## What a handle stores -/

/-- What a positional call stores of a backlog, and the backlog that it leaves. -/
def queueStep (backlog : List WriteReq) : FileOp → List WriteReq × List WriteReq
  | .pwrite buf offset => ([], backlog ++ [⟨buf, offset⟩])
  | _ => (reached backlog, if ∃ req ∈ backlog, req.Throws then backlog else [])

def stored (calls : List FileOp) : List WriteReq := (outputs queueStep [] calls).flatten

def pending (calls : List FileOp) : List WriteReq := run queueStep [] calls

theorem stored_snoc (calls : List FileOp) (op : FileOp) :
    stored (calls ++ [op]) = stored calls ++ (queueStep (pending calls) op).1 := by
  rw [stored, outputs_append, List.flatten_append]
  simp only [stored, pending, outputs_cons, outputs_nil, List.flatten_cons, List.flatten_nil,
    List.append_nil]

theorem pending_snoc (calls : List FileOp) (op : FileOp) :
    pending (calls ++ [op]) = (queueStep (pending calls) op).2 := by
  rw [pending, run_append]
  rfl

/-- A positional call does to its handle what it does to the backlog. -/
theorem positional_step {f : OpenFile} {op : FileOp} (buffered : f.direct = false)
    (positional : Positional op) :
    (OpenFiles.step f op).2.disk = storeAll f.disk (queueStep f.writeBacklog op).1 ∧
      (OpenFiles.step f op).2.direct = false ∧
      (OpenFiles.step f op).2.writeBacklog = (queueStep f.writeBacklog op).2 := by
  have flushes := f.fsyncUnlocked_spec
  rw [OpenFile.logical_eq] at flushes
  have flushed : f.fsyncUnlocked.2.disk = storeAll f.disk (reached f.writeBacklog) ∧
      f.fsyncUnlocked.2.direct = false ∧ f.fsyncUnlocked.2.writeBacklog =
        if ∃ req ∈ f.writeBacklog, req.Throws then f.writeBacklog else [] :=
    ⟨flushes.2.1, flushes.2.2.2.2.trans buffered, flushes.2.2.1⟩
  cases op with
  | pwrite buf offset =>
    have notDirect : ¬f.direct = true := Bool.eq_false_iff.mp buffered
    simp only [OpenFiles.step, OpenFile.pwrite, OpenFile.pwriteUnlocked, dif_neg notDirect]
    exact ⟨rfl, buffered, rfl⟩
  | pread n offset =>
    simp only [OpenFiles.step, OpenFile.pread, OpenFile.preadUnlocked_spec]
    exact flushed
  | fsync => exact flushed
  | write buf => cases positional
  | read n => cases positional
  | lseek offset whence => cases positional

/-- What is stored and what is pending was queued, and no stored write throws. -/
theorem stored_queued (calls : List FileOp) :
    (∀ req ∈ stored calls, req ∈ calls.filterMap queued ∧ ¬req.Throws) ∧
      ∀ req ∈ pending calls, req ∈ calls.filterMap queued := by
  induction calls using List.reverseRecOn with
  | nil => exact ⟨fun _ => nofun, fun _ => nofun⟩
  | append_singleton calls op ih =>
    obtain ⟨old, waiting⟩ := ih
    rw [stored_snoc, pending_snoc, List.filterMap_append]
    have fromQueue : ∀ req ∈ reached (pending calls),
        req ∈ calls.filterMap queued ++ [op].filterMap queued ∧ ¬req.Throws := by
      intro req member
      obtain ⟨inside, passes⟩ := mem_reached member
      exact ⟨List.mem_append_left _ (waiting req inside), passes⟩
    have before : ∀ req ∈ stored calls,
        req ∈ calls.filterMap queued ++ [op].filterMap queued ∧ ¬req.Throws :=
      fun req member => (old req member).imp_left (List.mem_append_left _)
    have left : ∀ req ∈ (if ∃ req ∈ pending calls, req.Throws then pending calls else []),
        req ∈ calls.filterMap queued ++ [op].filterMap queued := by
      intro req member
      split at member
      · exact List.mem_append_left _ (waiting req member)
      · cases member
    cases op with
    | pwrite buf offset =>
      refine ⟨fun req member => before req (by simpa [queueStep] using member), ?_⟩
      intro req member
      rcases List.mem_append.mp member with inside | now
      · exact List.mem_append_left _ (waiting req inside)
      · exact List.mem_append_right _ now
    | pread n offset => exact ⟨List.forall_mem_append.mpr ⟨before, fromQueue⟩, left⟩
    | fsync => exact ⟨List.forall_mem_append.mpr ⟨before, fromQueue⟩, left⟩
    | write buf => exact ⟨List.forall_mem_append.mpr ⟨before, fromQueue⟩, left⟩
    | read n => exact ⟨List.forall_mem_append.mpr ⟨before, fromQueue⟩, left⟩
    | lseek offset whence => exact ⟨List.forall_mem_append.mpr ⟨before, fromQueue⟩, left⟩

theorem patches_append (first second : List WriteReq) :
    patches (first ++ second) = patches first ++ patches second := by
  rw [patches, List.filter_append, List.map_append, ← patches, ← patches]

/-- A second flush in a row stores nothing, or the same once more. -/
theorem flushed_again (calls : List FileOp) :
    SameEffect (patches (stored (calls ++ [.fsync] ++ [.fsync])))
      (patches (stored (calls ++ [.fsync]))) := by
  rw [stored_snoc, stored_snoc, pending_snoc, patches_append, patches_append]
  simp only [queueStep]
  by_cases stuck : ∃ req ∈ pending calls, req.Throws
  · rw [if_pos stuck]
    exact sameEffect_again _ _
  · rw [if_neg stuck]
    exact List.append_nil _ ▸ SameEffect.refl _

/-- Nor do any more. -/
theorem flushed_often (calls : List FileOp) (n : Nat) :
    SameEffect (patches (stored (calls ++ List.replicate (n + 1) .fsync)))
      (patches (stored (calls ++ [.fsync]))) := by
  induction n with
  | zero => exact .refl _
  | succ n ih =>
    refine SameEffect.trans ?_ ih
    have twice := flushed_again (calls ++ List.replicate n .fsync)
    rwa [List.append_assoc, List.append_assoc, List.append_assoc, ← List.replicate_succ',
      List.singleton_append, ← List.singleton_append, ← List.append_assoc (List.replicate n _),
      ← List.replicate_succ', ← List.replicate_succ'] at twice

/-! ## What the file has seen -/

/-- The file has seen what its handles stored, each in its order, and the rest of each
handle's writes is in its backlog. -/
structure Progress (disk : DiskFile) (calls : List (τ × FileOp)) (m : Sharing τ)
    (seen : List (τ × WriteReq)) : Prop where
  buffered : ∀ t, (m.handles t).direct = false
  file : ∀ t, (m.handles t).disk = storeAll disk (seen.map Prod.snd)
  stored : ∀ t, own t seen = stored (own t calls)
  pending : ∀ t, (m.handles t).writeBacklog = pending (own t calls)

theorem progress_step {disk : DiskFile} {calls : List (τ × FileOp)} {m : Sharing τ}
    {seen : List (τ × WriteReq)} {t : τ} {op : FileOp} (progress : Progress disk calls m seen)
    (positional : Positional op) :
    ∃ seen', Progress disk (calls ++ [(t, op)]) (step m (t, op)).2 seen' := by
  obtain ⟨file, direct, backlog⟩ := positional_step (progress.buffered t) positional
  have mine : own t [(t, op)] = [op] := own_map_self t [op]
  refine ⟨seen ++ (queueStep (m.handles t).writeBacklog op).1.map fun req => (t, req),
    fun s => ?_, fun s => ?_, fun s => ?_, fun s => ?_⟩
  · by_cases here : s = t
    · rw [here, handles_self, direct]
    · rw [handles_other here]
      exact progress.buffered s
  · rw [handles_disk, file, progress.file t, List.map_append, List.map_map, storeAll_append]
    simp [Function.comp_def]
  · rw [own_append, own_append, progress.stored]
    by_cases here : s = t
    · rw [here, own_map_self, mine, stored_snoc, progress.pending]
    · have others : own s [(t, op)] = [] := own_map_other (Ne.symm here) [op]
      rw [own_map_other (Ne.symm here), others, List.append_nil, List.append_nil]
  · rw [own_append]
    by_cases here : s = t
    · rw [here, handles_self, mine, backlog, pending_snoc, progress.pending]
    · have others : own s [(t, op)] = [] := own_map_other (Ne.symm here) [op]
      rw [handles_other here, others, List.append_nil]
      exact progress.pending s

theorem progress_run (pos : τ → U64) (disk : DiskFile) {calls : List (τ × FileOp)}
    (positional : ∀ e ∈ calls, Positional e.2) :
    ∃ seen, Progress disk calls (run step (opens pos disk) calls) seen := by
  induction calls using List.reverseRecOn with
  | nil => exact ⟨[], fun _ => rfl, fun _ => rfl, fun _ => rfl, fun _ => rfl⟩
  | append_singleton calls e ih =>
    obtain ⟨before, here⟩ := List.forall_mem_append.mp positional
    obtain ⟨seen, progress⟩ := ih before
    rw [run_append]
    exact progress_step progress (here e (List.mem_singleton_self e))

/-! ## When all have flushed -/

omit [DecidableEq τ] in
/-- The requests of positional calls all start below the limit. -/
theorem requests_inRange {calls : List (τ × FileOp)} (positional : ∀ e ∈ calls, Positional e.2)
    {d : τ × WriteReq} (member : d ∈ requests calls) : d.2.pos < maxFileSize := by
  obtain ⟨⟨t, op⟩, inside, found⟩ := List.mem_filterMap.mp member
  have here := positional (t, op) inside
  cases op with
  | pwrite buf offset =>
    rw [← Option.some.inj found]
    exact here
  | pread n offset => cases found
  | fsync => cases found
  | write buf => cases found
  | read n => cases found
  | lseek offset whence => cases found

/-- The writes of a handle are those of its own calls. -/
theorem own_requests (t : τ) (calls : List (τ × FileOp)) :
    own t (requests calls) = (own t calls).filterMap queued := by
  rw [own, requests, own, List.filterMap_filterMap, List.filterMap_filterMap]
  congr 1
  funext e
  by_cases mine : e.1 = t
  · cases queue : queued e.2 <;> simp [mine, queue]
  · cases queue : queued e.2 <;> simp [mine]

/-- A flush of each listed handle. -/
def fsyncs (last : List τ) : List (τ × FileOp) := last.map fun t => (t, .fsync)

theorem own_fsyncs (t : τ) (last : List τ) :
    own t (fsyncs last) = List.replicate (last.count t) .fsync := by
  induction last with
  | nil => rfl
  | cons s rest ih =>
    rw [fsyncs, List.map_cons, ← fsyncs, own, List.filterMap_cons, ← own, ih]
    by_cases here : s = t
    · rw [if_pos here, here, List.count_cons_self]
      rfl
    · rw [if_neg here, List.count_cons_of_ne here]

omit [DecidableEq τ] in
theorem requests_fsyncs (calls : List (τ × FileOp)) (last : List τ) :
    requests (calls ++ fsyncs last) = requests calls := by
  have none : requests (fsyncs last) = [] := by
    rw [requests, fsyncs, List.filterMap_map]
    exact List.filterMap_eq_nil_iff.mpr fun t _ => rfl
  rw [requests, List.filterMap_append, ← requests, ← requests, none, List.append_nil]

/-- What the file has seen when all have flushed: the writes of each handle do what those
that its own calls and one flush store do. -/
theorem flushed_history (pos : τ → U64) (disk : DiskFile) {calls : List (τ × FileOp)}
    {last : List τ} (positional : ∀ e ∈ calls, Positional e.2) (all : ∀ t, t ∈ last) :
    ∃ seen : List (τ × WriteReq),
      (∀ t, SameEffect (patches (own t seen)) (patches (stored (own t calls ++ [.fsync])))) ∧
      (∀ e ∈ seen, e ∈ requests calls ∧ e.2.Stores) ∧
      ∀ t, ((run step (opens pos disk) (calls ++ fsyncs last)).handles t).disk =
        storeAll disk (seen.map Prod.snd) := by
  have whole : ∀ e ∈ calls ++ fsyncs last, Positional e.2 := by
    refine List.forall_mem_append.mpr ⟨positional, ?_⟩
    exact List.forall_mem_map.mpr fun t _ => trivial
  obtain ⟨seen, progress⟩ := progress_run pos disk whole
  refine ⟨seen, fun t => ?_, fun e member => ?_, progress.file⟩
  · obtain ⟨n, count⟩ := Nat.exists_eq_succ_of_ne_zero
      (Nat.ne_of_gt (List.count_pos_iff.mpr (all t)))
    rw [progress.stored, own_append, own_fsyncs, count]
    exact flushed_often _ n
  · have mine : e.2 ∈ own e.1 seen := mem_own.mpr member
    rw [progress.stored] at mine
    obtain ⟨issued, passes⟩ := (stored_queued _).1 e.2 mine
    rw [← own_requests, requests_fsyncs] at issued
    have request : e ∈ requests calls := mem_own.mp issued
    exact ⟨request, (stores_or_throws e.2.bytes
      (requests_inRange positional request)).resolve_right passes⟩

/-- The history, as patches of the buffer. -/
def history (seen : List (τ × WriteReq)) : List (τ × Patch Byte) :=
  seen.map fun e => (e.1, e.2.patch)

theorem patches_of_stores {reqs : List WriteReq} (stores : ∀ req ∈ reqs, req.Stores) :
    patches reqs = reqs.map WriteReq.patch := by
  rw [patches, List.filter_eq_self.mpr fun req member => decide_eq_true (stores req member)]

theorem own_history {seen : List (τ × WriteReq)} (stores : ∀ e ∈ seen, e.2.Stores) (t : τ) :
    own t (history seen) = patches (own t seen) := by
  rw [patches_of_stores fun req member => stores (t, req) (mem_own.mp member), own, history, own,
    List.filterMap_map, List.map_filterMap]
  congr 1
  funext e
  by_cases mine : e.1 = t
  · simp [mine]
  · simp [mine]

omit [DecidableEq τ] in
theorem history_buffer {disk : DiskFile} {seen : List (τ × WriteReq)}
    (stores : ∀ e ∈ seen, e.2.Stores) :
    (storeAll disk (seen.map Prod.snd)).buffer =
      replay 0 disk.buffer ((history seen).map Prod.snd) := by
  rw [storeAll_buffer, patches_of_stores (List.forall_mem_map.mpr stores), history, List.map_map,
    List.map_map]
  rfl

/-- Two schedules that keep the order of each handle, with writes of different handles
apart, leave the same file once every handle has flushed. -/
theorem interleavings_agree (pos : τ → U64) (disk : DiskFile)
    {calls calls' : List (τ × FileOp)} {last last' : List τ}
    (orders : ∀ t, own t calls = own t calls') (positional : ∀ e ∈ calls, Positional e.2)
    (apart : Apart calls) (all : ∀ t, t ∈ last) (all' : ∀ t, t ∈ last') (s t : τ) :
    ((run step (opens pos disk) (calls ++ fsyncs last)).handles s).disk =
      ((run step (opens pos disk) (calls' ++ fsyncs last')).handles t).disk := by
  have positional' : ∀ e ∈ calls', Positional e.2 := fun e member =>
    positional e (mem_of_own_eq (fun t => (orders t).symm) member)
  obtain ⟨seen, mine, requested, file⟩ := flushed_history pos disk positional all
  obtain ⟨seen', mine', requested', file'⟩ := flushed_history pos disk positional' all'
  have stores : ∀ e ∈ seen, e.2.Stores := fun e member => (requested e member).2
  have stores' : ∀ e ∈ seen', e.2.Stores := fun e member => (requested' e member).2
  have disjoint : Disjoint (history seen) := by
    rintro _ left _ right
    obtain ⟨a, hereA, rfl⟩ := List.mem_map.mp left
    obtain ⟨b, hereB, rfl⟩ := List.mem_map.mp right
    exact apart a (requested a hereA).1 b (requested b hereB).1
  have same : ∀ t, SameEffect (own t (history seen)) (own t (history seen')) := by
    intro t
    rw [own_history stores, own_history stores']
    exact (mine t).trans (orders t ▸ (mine' t).symm)
  apply DiskFile.ext
  rw [file, file', history_buffer stores, history_buffer stores',
    replay_interleaved 0 disk.buffer disjoint same]

/-- The second handle writes beyond the first one's range and flushes before or after it. -/
theorem interleavings_agree_gap :
    ((run step (opens (fun _ => 0) .empty)
        ([(true, .pwrite ⟨[1, 2], by decide⟩ 0), (false, .pwrite ⟨[7], by decide⟩ 4),
          (false, .pread 1 0), (true, .pread 9 1)] ++ fsyncs [false, true])).handles true).disk =
      ((run step (opens (fun _ => 0) .empty)
        ([(false, .pwrite ⟨[7], by decide⟩ 4), (true, .pwrite ⟨[1, 2], by decide⟩ 0),
          (true, .pread 9 1), (false, .pread 1 0)] ++
            fsyncs [true, false])).handles false).disk := by
  refine interleavings_agree (fun _ => 0) .empty ?_ ?_ ?_ ?_ ?_ true false
  · rintro (_ | _) <;> rfl
  · decide
  · simp [Apart, requests, queued, WriteReq.patch, Patch.Covers, Patch.stop]
    constructor
    · intro i before after
      omega
    · intro i before after
      omega
  · decide
  · decide

end SharedDisk
