import Redstone.BacklogRefinement
import Redstone.SharedDisk

/-!
# Overlapping calls on a shared disk file

A call holds the mutex of its open file until it returns, but the disk file is locked for
one write or one read at a time. The writes of a flush are therefore mixed with what other
handles do to the file. Here calls on different handles overlap, and a step makes at most
one access to the disk file. A write that throws ends the loop and the call.
-/

namespace ConcurrentDisk

open Function MachineWords DiskStore OpenFiles OpenFile StepRuns WriteHistories
open SharedDisk (Sharing handles_self handles_other handles_disk)
open BacklogRefinement (DataPath Within stores_of_within Mirrors applyIssued logical_step
  issued_congr step_direct mirrors_step step_write step_value)

variable {τ : Type}

/-- The calls that run the loop of `fsync_unlocked`. -/
def flushes (f : OpenFile) : FileOp → Bool
  | .read _ => !f.direct
  | .pread _ _ => !f.direct
  | .fsync => !f.direct
  | _ => false

/-- With each handle the call that is in the loop, and the writes that it has not stored. -/
structure State (τ : Type) where
  sharing : Sharing τ
  flushing : τ → Option (FileOp × List WriteReq)

theorem stored_shared (m : Sharing τ) (req : WriteReq) (s t : τ) :
    ((m.handles s).disk.write req.pos req.bytes).2 =
      ((m.handles t).disk.write req.pos req.bytes).2 := by
  rw [m.shared s t]

/-- One round of the loop: a write to the disk file, which all handles see. -/
def store (m : Sharing τ) (req : WriteReq) : Sharing τ where
  handles := fun s =>
    { m.handles s with disk := ((m.handles s).disk.write req.pos req.bytes).2 }
  shared := stored_shared m req

inductive Event (τ : Type) where
  | begins (t : τ) (op : FileOp)
  | stores (t : τ) (req : WriteReq)
  | answers (t : τ) (op : FileOp) (reply : Except Thrown Reply)

section Steps
variable [DecidableEq τ]

/-- The end of the loop. -/
def clear (m : Sharing τ) (t : τ) : Sharing τ where
  handles := fun s =>
    if s = t then { m.handles s with writeBacklog := [], idle := fun _ => rfl } else m.handles s
  shared := by
    intro r s
    split <;> split <;> exact m.shared r s

/-- A call without a flush makes at most one access. A flush makes one in each round, and
after the loop the call makes at most one more. -/
inductive DiskStep (m : State τ) : Event τ → State τ → Prop where
  | short {t : τ} {op : FileOp} (free : m.flushing t = none)
      (short : flushes (m.sharing.handles t) op = false) :
      DiskStep m (.answers t op (SharedDisk.step m.sharing (t, op)).1)
        ⟨(SharedDisk.step m.sharing (t, op)).2, m.flushing⟩
  | begins {t : τ} {op : FileOp} (free : m.flushing t = none)
      (long : flushes (m.sharing.handles t) op = true) :
      DiskStep m (.begins t op)
        ⟨m.sharing, update m.flushing t (some (op, (m.sharing.handles t).writeBacklog))⟩
  | stores {t : τ} {op : FileOp} {req : WriteReq} {rest : List WriteReq} {v : I64}
      (loop : m.flushing t = some (op, req :: rest))
      (written : ((m.sharing.handles t).disk.write req.pos req.bytes).1 = .ok v) :
      DiskStep m (.stores t req)
        ⟨store m.sharing req, update m.flushing t (some (op, rest))⟩
  | throws {t : τ} {op : FileOp} {req : WriteReq} {rest : List WriteReq} {e : Thrown}
      (loop : m.flushing t = some (op, req :: rest))
      (thrown : ((m.sharing.handles t).disk.write req.pos req.bytes).1 = .error e) :
      DiskStep m (.answers t op (.error e)) ⟨m.sharing, update m.flushing t none⟩
  | ends {t : τ} {op : FileOp} (stored : m.flushing t = some (op, [])) :
      DiskStep m (.answers t op (SharedDisk.step (clear m.sharing t) (t, op)).1)
        ⟨(SharedDisk.step (clear m.sharing t) (t, op)).2, update m.flushing t none⟩

/-- Writes start below the size limit and end within it, and no call seeks to the end:
`get_size` takes no lock. -/
def OnDataPath (m : State τ) : Event τ → Prop
  | .answers t op _ => DataPath (m.sharing.handles t) op ∧ Within (m.sharing.handles t) op
  | _ => True

instance (m : State τ) : (e : Event τ) → Decidable (OnDataPath m e)
  | .answers t op _ => inferInstanceAs (Decidable (DataPath (m.sharing.handles t) op ∧ _))
  | .begins _ _ => isTrue trivial
  | .stores _ _ => isTrue trivial

/-- The steps on the data path. -/
def DataStep (m : State τ) (e : Event τ) (after : State τ) : Prop :=
  DiskStep m e after ∧ OnDataPath m e

/-- Freshly opened handles, some of them direct. -/
def start (kinds : τ → Bool) (pos : τ → U64) (disk : DiskFile) : State τ where
  sharing := ⟨fun t => opened (kinds t) (pos t) disk, fun _ _ => rfl⟩
  flushing := fun _ => none

/-! ## The serial order -/

/-- A call of a handle with its answer. -/
abbrev Answer (τ : Type) := τ × FileOp × Except Thrown Reply

def call (a : Answer τ) : τ × FileOp := (a.1, a.2.1)

def reply (a : Answer τ) : Except Thrown Reply := a.2.2

def answer : Event τ → Option (Answer τ)
  | .answers t op reply => some (t, op, reply)
  | _ => none

def direct (pos : τ → U64) (disk : DiskFile) : Sharing τ where
  handles := fun t => opened true (pos t) disk
  shared := fun _ _ => rfl

/-- Direct handles on the same file, called one after the other. -/
def serial (pos : τ → U64) (disk : DiskFile) (order : List (Answer τ)) : Sharing τ :=
  run SharedDisk.step (direct pos disk) (order.map call)

/-- The calls of a list get the answers that direct handles give in that order. -/
def Replies (m : Sharing τ) (order : List (Answer τ)) : Prop :=
  outputs SharedDisk.step m (order.map call) = order.map reply

/-- The handle is in no flush and has nothing to flush. -/
def Settled (m : State τ) (t : τ) : Prop :=
  m.flushing t = none ∧ (m.sharing.handles t).writeBacklog = []

/-- The answers so far are those of a serial order of the calls on direct handles, which
keeps the order of each handle. The file is the one after its front, and nothing of a
settled handle is behind that. -/
structure Serial (pos : τ → U64) (disk : DiskFile) (past : List (Event τ)) (m : State τ)
    (front back : List (Answer τ)) : Prop where
  order : ∀ t, own t (front ++ back) = own t (past.filterMap answer)
  replies : Replies (direct pos disk) (front ++ back)
  file : ∀ s t, (m.sharing.handles s).disk = ((serial pos disk front).handles t).disk
  settled : ∀ t, Settled m t → own t back = []

/-! ## Calls that are answered without the disk file -/

/-- On every handle at position `p` the call gives this answer, moves to `q` and, if the
handle is not stuck, writes this, which can be stored. -/
structure Deferred (p : U64) (op : FileOp) (reply : Except Thrown Reply) (req : Option WriteReq)
    (q : U64) : Prop where
  reply : ∀ g : OpenFile, g.pos = p → (OpenFiles.step g op).1 = reply
  pos : ∀ g : OpenFile, g.pos = p → (OpenFiles.step g op).2.pos = q
  logical : ∀ g : OpenFile, g.pos = p → ¬g.Stuck →
    (OpenFiles.step g op).2.logical = applyIssued g.logical req
  stores : ∀ r ∈ req, r.Stores

theorem write_deferred {p : U64} {buf : Span} (stores : Stores p buf) :
    Deferred p (.write buf) (.ok ⟨buf.sizeBytes, []⟩) (some ⟨buf, p⟩) (p + buf.sizeBytes) := by
  have whole : ∀ g : OpenFile, g.pos = p →
      (OpenFiles.step g (.write buf)).1 = .ok ⟨buf.sizeBytes, []⟩ ∧
        (OpenFiles.step g (.write buf)).2.pos = p + buf.sizeBytes := by
    rintro g rfl
    have value := g.pwriteUnlocked_value stores
    have kept := (g.pwriteUnlocked_keeps buf g.pos).1
    have positive : ¬buf.sizeBytes.toInt < 0 := by
      rw [buf.sizeBytes_toInt]
      omega
    rw [step_write, value]
    simp only [BacklogRefinement.moved, if_neg positive, kept, and_true]
    rfl
  refine ⟨fun g at_ => (whole g at_).1, fun g at_ => (whole g at_).2, ?_, ?_⟩
  · rintro g rfl free
    exact (logical_step g (.write buf)).trans (if_neg free)
  · rintro r same
    obtain rfl := Option.some.inj same
    exact stores

theorem pwrite_deferred (p : U64) {buf : Span} {offset : U64} (stores : Stores offset buf) :
    Deferred p (.pwrite buf offset) (.ok ⟨buf.sizeBytes, []⟩) (some ⟨buf, offset⟩) p where
  reply := by
    rintro g rfl
    rw [step_value rfl, g.pwriteUnlocked_value stores]
    rfl
  pos := by
    rintro g rfl
    exact (g.pwriteUnlocked_keeps buf offset).1
  logical := fun g _ free => (logical_step g (.pwrite buf offset)).trans (if_neg free)
  stores := by
    rintro r same
    obtain rfl := Option.some.inj same
    exact stores

theorem lseek_deferred (p offset : U64) {whence : CInt} (notEnd : whence ≠ SEEK_END) :
    ∃ reply q, Deferred p (.lseek offset whence) reply none q := by
  have same : ∀ g : OpenFile, g.pos = p →
      (OpenFiles.step g (.lseek offset whence)).1 =
          (OpenFiles.step (opened false p .empty) (.lseek offset whence)).1 ∧
        (OpenFiles.step g (.lseek offset whence)).2.pos =
          (OpenFiles.step (opened false p .empty) (.lseek offset whence)).2.pos := by
    rintro g rfl
    simp only [OpenFiles.step, OpenFile.lseek, if_neg notEnd]
    by_cases set : whence = SEEK_SET
    · simp only [if_pos set, and_self]
    · by_cases cur : whence = SEEK_CUR
      · simp only [if_neg set, if_pos cur, opened, and_self]
      · simp only [if_neg set, if_neg cur, opened, and_self]
  refine ⟨_, _, fun g at_ => (same g at_).1, fun g at_ => (same g at_).2, fun g _ free => ?_, ?_⟩
  · exact (logical_step g (.lseek offset whence)).trans (if_neg free)
  · rintro r impossible
    cases impossible

/-- On a buffered handle these are the calls without a flush. -/
theorem deferred_of_short {f : OpenFile} {op : FileOp} (buffered : f.direct = false)
    (short : flushes f op = false) (path : DataPath f op) (within : Within f op) :
    Deferred f.pos op (OpenFiles.step f op).1 (issued f op) (OpenFiles.step f op).2.pos := by
  suffices ∃ reply q, Deferred f.pos op reply (issued f op) q by
    obtain ⟨reply, q, deferred⟩ := this
    rwa [deferred.reply f rfl, deferred.pos f rfl]
  have stores := stores_of_within path within
  cases op with
  | write buf => exact ⟨_, _, write_deferred (stores _ rfl)⟩
  | pwrite buf offset => exact ⟨_, _, pwrite_deferred f.pos (stores _ rfl)⟩
  | lseek offset whence => exact lseek_deferred f.pos offset (of_decide_eq_false path.2)
  | read n => simp [flushes, buffered] at short
  | pread n offset => simp [flushes, buffered] at short
  | fsync => simp [flushes, buffered] at short

/-- A sequence of such calls of one handle, with the writes that they leave to store. -/
inductive Queued : U64 → List (FileOp × Except Thrown Reply) → List WriteReq → U64 → Prop where
  | nil {p : U64} : Queued p [] [] p
  | cons {p p' q : U64} {op : FileOp} {reply : Except Thrown Reply} {req : Option WriteReq}
      {calls : List (FileOp × Except Thrown Reply)} {reqs : List WriteReq}
      (first : Deferred p op reply req p') (rest : Queued p' calls reqs q) :
      Queued p ((op, reply) :: calls) (req.toList ++ reqs) q

omit [DecidableEq τ] in
/-- What such calls leave to store can be stored. -/
theorem queued_stores {p q : U64} {calls : List (FileOp × Except Thrown Reply)}
    {reqs : List WriteReq} (queued : Queued p calls reqs q) : ∀ r ∈ reqs, r.Stores := by
  induction queued with
  | nil => exact fun r member => absurd member List.not_mem_nil
  | cons first _ ih =>
    refine List.forall_mem_append.mpr ⟨fun r member => ?_, ih⟩
    exact first.stores r (Option.mem_toList.mp member)

omit [DecidableEq τ] in
theorem queued_snoc {p q q' : U64} {op : FileOp} {reply : Except Thrown Reply}
    {req : Option WriteReq} {calls : List (FileOp × Except Thrown Reply)} {reqs : List WriteReq}
    (queued : Queued p calls reqs q) (last : Deferred q op reply req q') :
    Queued p (calls ++ [(op, reply)]) (reqs ++ req.toList) q' := by
  induction queued with
  | nil =>
    rw [List.nil_append, ← List.append_nil req.toList]
    exact .cons last .nil
  | cons first _ ih =>
    rw [List.append_assoc]
    exact .cons first (ih last)

omit [DecidableEq τ] in
theorem queued_nil {p q : U64} {reqs : List WriteReq} (queued : Queued p [] reqs q) : p = q := by
  cases queued
  rfl

/-- What is done when the first write has been stored, and what is left. -/
theorem queued_split {p q : U64} {calls : List (FileOp × Except Thrown Reply)} {req : WriteReq}
    {rest : List WriteReq} (queued : Queued p calls (req :: rest) q) :
    ∃ first later middle, calls = first ++ later ∧ Queued p first [req] middle ∧
      Queued middle later rest q := by
  generalize whole : req :: rest = reqs at queued
  induction queued with
  | nil => cases whole
  | @cons p p' q op reply now calls reqs head tail ih =>
    cases now with
    | none =>
      obtain ⟨first, later, middle, cut, front, back⟩ := ih whole
      exact ⟨(op, reply) :: first, later, middle, by rw [cut]; rfl, .cons head front, back⟩
    | some other =>
      obtain ⟨rfl, rfl⟩ := List.cons.inj whole
      exact ⟨[(op, reply)], calls, p', rfl, .cons head .nil, tail⟩

/-- Direct handles before and after calls of one of them. -/
structure Moved (m m' : Sharing τ) (t : τ) (reqs : List WriteReq) (q : U64) : Prop where
  direct : ∀ s, (m'.handles s).direct = true
  pos : (m'.handles t).pos = q
  others : ∀ s, s ≠ t → (m'.handles s).pos = (m.handles s).pos
  disk : ∀ s, (m'.handles s).disk = storeAll (m.handles s).disk reqs

theorem deferred_step {m : Sharing τ} {t : τ} {op : FileOp} {reply : Except Thrown Reply}
    {req : Option WriteReq} {q : U64} (direct : ∀ s, (m.handles s).direct = true)
    (deferred : Deferred (m.handles t).pos op reply req q) :
    (SharedDisk.step m (t, op)).1 = reply ∧
      Moved m (SharedDisk.step m (t, op)).2 t req.toList q := by
  have isDirect : (OpenFiles.step (m.handles t) op).2.direct = true :=
    (step_direct (m.handles t) op).trans (direct t)
  refine ⟨deferred.reply _ rfl, fun s => ?_, ?_, fun s other => ?_, fun s => ?_⟩
  · by_cases here : s = t
    · rw [here, handles_self, isDirect]
    · rw [handles_other here]
      exact direct s
  · rw [handles_self]
    exact deferred.pos _ rfl
  · rw [handles_other other]
  · have logical := deferred.logical _ rfl (not_stuck (direct t))
    rw [logical_direct isDirect, logical_direct (direct t)] at logical
    rw [handles_disk, logical, m.shared s t]
    cases req <;> rfl

omit [DecidableEq τ] in
theorem Moved.trans {m m' m'' : Sharing τ} {t : τ} {first second : List WriteReq} {p q : U64}
    (front : Moved m m' t first p) (back : Moved m' m'' t second q) :
    Moved m m'' t (first ++ second) q where
  direct := back.direct
  pos := back.pos
  others := fun s other => (back.others s other).trans (front.others s other)
  disk := fun s => by rw [back.disk, front.disk, storeAll_append]

def ofHandle (t : τ) (calls : List (FileOp × Except Thrown Reply)) : List (Answer τ) :=
  calls.map fun c => (t, c)

/-- Direct handles answer the calls alike, and do what was left to do. -/
theorem queued_run {m : Sharing τ} {t : τ} {calls : List (FileOp × Except Thrown Reply)}
    {reqs : List WriteReq} {q : U64} (direct : ∀ s, (m.handles s).direct = true)
    (queued : Queued (m.handles t).pos calls reqs q) :
    Replies m (ofHandle t calls) ∧
      Moved m (run SharedDisk.step m ((ofHandle t calls).map call)) t reqs q := by
  generalize at_ : (m.handles t).pos = p at queued
  induction queued generalizing m with
  | nil => exact ⟨rfl, direct, at_, fun _ _ => rfl, fun _ => rfl⟩
  | cons first _ ih =>
    rw [← at_] at first
    obtain ⟨reply, moved⟩ := deferred_step direct first
    obtain ⟨replies, later⟩ := ih moved.direct moved.pos
    exact ⟨congrArg₂ List.cons reply replies, moved.trans later⟩

theorem own_cons (a : Answer τ) (rest : List (Answer τ)) (s : τ) :
    own s (a :: rest) = if s = a.1 then a.2 :: own s rest else own s rest := by
  by_cases here : s = a.1
  · rw [if_pos here, here, own, List.filterMap_cons, if_pos rfl]
    rfl
  · rw [if_neg here, own, List.filterMap_cons, if_neg (Ne.symm here)]
    rfl

/-- Such calls of several handles get the same answers in any order. -/
theorem replies_interleaved {m : Sharing τ} {back : List (Answer τ)}
    (direct : ∀ s, (m.handles s).direct = true)
    (queued : ∀ s, ∃ reqs q, Queued (m.handles s).pos (own s back) reqs q) : Replies m back := by
  induction back generalizing m with
  | nil => rfl
  | cons a rest ih =>
    obtain ⟨t, op, reply⟩ := a
    obtain ⟨reqs, q, mine⟩ := queued t
    rw [own_cons, if_pos rfl] at mine
    cases mine with
    | cons first later =>
      obtain ⟨same, moved⟩ := deferred_step direct first
      refine congrArg₂ List.cons same (ih moved.direct ?_)
      intro s
      change ∃ reqs q, Queued ((SharedDisk.step m (t, op)).2.handles s).pos (own s rest) reqs q
      by_cases here : s = t
      · rw [here, moved.pos]
        exact ⟨_, _, later⟩
      · rw [moved.others s here]
        obtain ⟨reqs', q', others⟩ := queued s
        rw [own_cons, if_neg here] at others
        exact ⟨reqs', q', others⟩

/-! ## Steps -/

omit [DecidableEq τ] in
/-- The writes that a handle has still to store. -/
def waiting (m : State τ) (t : τ) : List WriteReq :=
  match m.flushing t with
  | some (_, rest) => rest
  | none => (m.sharing.handles t).writeBacklog

/-- The calls behind the front are those that a handle has answered without the disk file
since its last write was stored. -/
structure Explains (pos : τ → U64) (disk : DiskFile) (past : List (Event τ)) (m : State τ)
    (front back : List (Answer τ)) : Prop where
  order : ∀ t, own t (front ++ back) = own t (past.filterMap answer)
  replies : Replies (direct pos disk) front
  isDirect : ∀ t, ((serial pos disk front).handles t).direct = true
  file : ∀ s t, (m.sharing.handles s).disk = ((serial pos disk front).handles t).disk
  queued : ∀ t, Queued ((serial pos disk front).handles t).pos (own t back) (waiting m t)
    (m.sharing.handles t).pos
  settled : ∀ t, Settled m t → own t back = []
  loops : ∀ t op rest, m.flushing t = some (op, rest) →
    flushes (m.sharing.handles t) op = true

variable {pos : τ → U64} {disk : DiskFile} {past : List (Event τ)} {m after : State τ}
  {front back : List (Answer τ)}

theorem serial_append (front more : List (Answer τ)) :
    serial pos disk (front ++ more) =
      run SharedDisk.step (serial pos disk front) (more.map call) := by
  rw [serial, List.map_append, run_append]
  rfl

theorem replies_append {m : Sharing τ} {front more : List (Answer τ)} (first : Replies m front)
    (second : Replies (run SharedDisk.step m (front.map call)) more) :
    Replies m (front ++ more) := by
  rw [Replies, List.map_append, List.map_append, outputs_append, first, second]

theorem explains_serial (explains : Explains pos disk past m front back) :
    Serial pos disk past m front back where
  order := explains.order
  replies := replies_append explains.replies
    (replies_interleaved explains.isDirect fun t => ⟨_, _, explains.queued t⟩)
  file := explains.file
  settled := explains.settled

theorem explains_start (kinds : τ → Bool) (pos : τ → U64) (disk : DiskFile) :
    Explains pos disk [] (start kinds pos disk) [] [] where
  order := fun _ => rfl
  replies := rfl
  isDirect := fun _ => rfl
  file := fun _ _ => rfl
  queued := fun _ => .nil
  settled := fun _ _ => rfl
  loops := by
    intro t op rest loop
    cases loop

theorem own_answered (t s : τ) (op : FileOp) (reply : Except Thrown Reply) :
    own s ((past ++ [Event.answers t op reply]).filterMap answer) =
      own s (past.filterMap answer) ++ own s (ofHandle t [(op, reply)]) := by
  rw [filterMap_snoc, own_append]
  rfl

theorem own_silent {e : Event τ} (t : τ) (silent : answer e = none) (s : τ) :
    own s ((past ++ [e]).filterMap answer) =
      own s (past.filterMap answer) ++ own s (ofHandle t []) := by
  rw [filterMap_snoc, own_append, silent]
  rfl

/-- What a call without a flush does to a buffered handle. -/
theorem short_spec {f : OpenFile} {op : FileOp} (buffered : f.direct = false)
    (short : flushes f op = false) :
    (OpenFiles.step f op).2.disk = f.disk ∧
      (OpenFiles.step f op).2.writeBacklog = f.writeBacklog ++ (issued f op).toList := by
  obtain ⟨pos, same⟩ := BacklogRefinement.step_effect f op
  have notDirect : ¬f.direct = true := by
    rw [buffered]
    decide
  rw [same]
  cases op with
  | write buf =>
    simp only [BacklogRefinement.effect, pwriteUnlocked, dif_neg notDirect]
    exact ⟨trivial, rfl⟩
  | pwrite buf offset =>
    simp only [BacklogRefinement.effect, pwriteUnlocked, dif_neg notDirect]
    exact ⟨trivial, rfl⟩
  | lseek offset whence => exact ⟨rfl, (List.append_nil f.writeBacklog).symm⟩
  | read n => simp [flushes, buffered] at short
  | pread n offset => simp [flushes, buffered] at short
  | fsync => simp [flushes, buffered] at short

/-- Calls with a flush are on buffered handles and write nothing else. -/
theorem flushes_silent {f : OpenFile} {op : FileOp} (long : flushes f op = true) :
    f.direct = false ∧ (∀ g, issued g op = none) ∧ BacklogRefinement.seeksEnd op = false := by
  cases op with
  | read n => exact ⟨by simpa [flushes] using long, fun _ => rfl, rfl⟩
  | pread n offset => exact ⟨by simpa [flushes] using long, fun _ => rfl, rfl⟩
  | fsync => exact ⟨by simpa [flushes] using long, fun _ => rfl, rfl⟩
  | write buf => cases long
  | pwrite buf offset => cases long
  | lseek offset whence => cases long

/-- They store the logical file and leave nothing queued, if the handle is not stuck. -/
theorem flushes_spec {f : OpenFile} {op : FileOp} (free : ¬f.Stuck)
    (long : flushes f op = true) :
    (OpenFiles.step f op).2.writeBacklog = [] ∧ (OpenFiles.step f op).2.disk = f.logical := by
  obtain ⟨pos, same⟩ := BacklogRefinement.step_effect f op
  obtain ⟨-, disk, flushed, -⟩ := f.fsyncUnlocked_spec
  rw [if_neg free] at flushed
  rw [same]
  cases op with
  | read n => exact ⟨flushed, disk⟩
  | pread n offset => exact ⟨flushed, disk⟩
  | fsync => exact ⟨flushed, disk⟩
  | write buf => cases long
  | pwrite buf offset => cases long
  | lseek offset whence => cases long

omit [DecidableEq τ] in
/-- The other handles, but for the file. -/
structure Aside (m after : State τ) (t : τ) : Prop where
  flushing : ∀ s, s ≠ t → after.flushing s = m.flushing s
  backlog : ∀ s, s ≠ t →
    (after.sharing.handles s).writeBacklog = (m.sharing.handles s).writeBacklog
  pos : ∀ s, s ≠ t → (after.sharing.handles s).pos = (m.sharing.handles s).pos
  direct : ∀ s, s ≠ t → (after.sharing.handles s).direct = (m.sharing.handles s).direct

/-- A step answers the calls `new`, and moves the calls `first` of its handle to the
front. -/
theorem explains_moves {past' : List (Event τ)} {t : τ}
    {new first later : List (FileOp × Except Thrown Reply)} {reqs : List WriteReq} {q : U64}
    (explains : Explains pos disk past m front back)
    (aside : Aside m after t)
    (answered : ∀ s, own s (past'.filterMap answer) =
      own s (past.filterMap answer) ++ own s (ofHandle t new))
    (cut : own t back ++ new = first ++ later)
    (replies : Replies (serial pos disk front) (ofHandle t first))
    (moved : Moved (serial pos disk front) (serial pos disk (front ++ ofHandle t first)) t reqs q)
    (file : ∀ s, (after.sharing.handles s).disk = storeAll (m.sharing.handles s).disk reqs)
    (queued : Queued q later (waiting after t) (after.sharing.handles t).pos)
    (settled : Settled after t → later = [])
    (loops : ∀ op rest, after.flushing t = some (op, rest) →
      flushes (after.sharing.handles t) op = true) :
    ∃ back', Explains pos disk past' after (front ++ ofHandle t first) back' := by
  obtain ⟨back', mine, others⟩ := exists_replaced t back later
  refine ⟨back', ⟨fun s => ?_, replies_append explains.replies replies, moved.direct,
    fun r s => ?_, fun s => ?_, fun s calm => ?_, fun s op rest loop => ?_⟩⟩
  · rw [answered, ← explains.order, own_append, own_append, own_append]
    by_cases here : s = t
    · rw [here, ofHandle, ofHandle, own_map_self, own_map_self, mine, List.append_assoc,
        List.append_assoc, cut]
    · rw [ofHandle, ofHandle, own_map_other (Ne.symm here), own_map_other (Ne.symm here),
        others s here, List.append_nil, List.append_nil]
  · rw [file, moved.disk, explains.file r s]
  · by_cases here : s = t
    · rw [here, mine, moved.pos]
      exact queued
    · have same : waiting after s = waiting m s := by
        rw [waiting, waiting, aside.flushing s here, aside.backlog s here]
      rw [others s here, moved.others s here, same, aside.pos s here]
      exact explains.queued s
  · by_cases here : s = t
    · rw [here] at calm
      rw [here, mine, settled calm]
    · rw [others s here]
      rw [Settled, aside.flushing s here, aside.backlog s here] at calm
      exact explains.settled s calm
  · by_cases here : s = t
    · rw [here] at loop ⊢
      exact loops op rest loop
    · rw [aside.flushing s here] at loop
      have before := explains.loops s op rest loop
      cases op <;> simpa only [flushes, aside.direct s here] using before

theorem moved_nothing (explains : Explains pos disk past m front back) (t : τ) :
    Moved (serial pos disk front) (serial pos disk (front ++ ofHandle t [])) t []
      ((serial pos disk front).handles t).pos := by
  have same : front ++ ofHandle t [] = front := List.append_nil front
  rw [same]
  exact ⟨explains.isDirect, rfl, fun _ _ => rfl, fun _ => rfl⟩

/-- Any call on one of the direct handles. -/
theorem moved_step {m : Sharing τ} (t : τ) (op : FileOp)
    (direct : ∀ s, (m.handles s).direct = true) :
    Moved m (SharedDisk.step m (t, op)).2 t (issued (m.handles t) op).toList
      (OpenFiles.step (m.handles t) op).2.pos := by
  have isDirect : (OpenFiles.step (m.handles t) op).2.direct = true :=
    (step_direct (m.handles t) op).trans (direct t)
  refine ⟨fun s => ?_, by rw [handles_self], fun s other => by rw [handles_other other],
    fun s => ?_⟩
  · by_cases here : s = t
    · rw [here, handles_self, isDirect]
    · rw [handles_other here]
      exact direct s
  · have logical := logical_step (m.handles t) op
    rw [logical_direct isDirect, if_neg (not_stuck (direct t)), logical_direct (direct t)]
      at logical
    rw [handles_disk, logical, m.shared s t]
    cases issued (m.handles t) op <;> rfl

theorem direct_ext {f g : OpenFile} (first : f.direct = true) (second : g.direct = true)
    (pos : f.pos = g.pos) (disk : f.disk = g.disk) : f = g := by
  obtain ⟨backlog, file, at_, mode, idle⟩ := f
  obtain ⟨backlog', file', at', mode', idle'⟩ := g
  obtain rfl : mode = true := first
  obtain rfl : mode' = true := second
  obtain rfl := idle rfl
  obtain rfl := idle' rfl
  obtain rfl : at_ = at' := pos
  obtain rfl : file = file' := disk
  rfl

theorem aside_short (m : State τ) (t : τ) (op : FileOp) :
    Aside m ⟨(SharedDisk.step m.sharing (t, op)).2, m.flushing⟩ t where
  flushing := fun _ _ => rfl
  backlog := fun s other => by rw [handles_other other]
  pos := fun s other => by rw [handles_other other]
  direct := fun s other => by rw [handles_other other]

/-- A short call of a direct handle takes its place at the end of the front. -/
theorem explains_direct (explains : Explains pos disk past m front back) {t : τ} {op : FileOp}
    (free : m.flushing t = none) (isDirect : (m.sharing.handles t).direct = true) :
    ∃ new back', Explains pos disk
      (past ++ [.answers t op (SharedDisk.step m.sharing (t, op)).1])
      ⟨(SharedDisk.step m.sharing (t, op)).2, m.flushing⟩ (front ++ new) back' := by
  have idle := (m.sharing.handles t).idle isDirect
  have nothing : own t back = [] := explains.settled t ⟨free, idle⟩
  have queued := explains.queued t
  rw [nothing] at queued
  have same : m.sharing.handles t = (serial pos disk front).handles t :=
    direct_ext isDirect (explains.isDirect t) (queued_nil queued).symm (explains.file t t)
  have stays : (OpenFiles.step (m.sharing.handles t) op).2.direct = true :=
    (step_direct _ op).trans isDirect
  have reply : (SharedDisk.step (serial pos disk front) (t, op)).1 =
      (SharedDisk.step m.sharing (t, op)).1 :=
    congrArg (fun f => (OpenFiles.step f op).1) same.symm
  have moved : Moved (serial pos disk front)
      (serial pos disk (front ++ ofHandle t [(op, (SharedDisk.step m.sharing (t, op)).1)])) t
      (issued (m.sharing.handles t) op).toList (OpenFiles.step (m.sharing.handles t) op).2.pos := by
    rw [serial_append, same]
    exact moved_step t op explains.isDirect
  have cut : own t back ++ [(op, (SharedDisk.step m.sharing (t, op)).1)] =
      [(op, (SharedDisk.step m.sharing (t, op)).1)] ++ [] := by
    rw [nothing]
    rfl
  refine ⟨ofHandle t [(op, (SharedDisk.step m.sharing (t, op)).1)], explains_moves explains
    (aside_short m t op) (fun s => own_answered t s op _) cut
    (congrArg (fun r => [r]) reply) moved (fun s => ?_) ?_ (fun _ => rfl)
    fun op' rest loop => ?_⟩
  · have logical := logical_step (m.sharing.handles t) op
    rw [logical_direct stays, if_neg (not_stuck isDirect), logical_direct isDirect] at logical
    rw [handles_disk, logical, m.sharing.shared s t]
    cases issued (m.sharing.handles t) op <;> rfl
  · have empty : waiting (⟨(SharedDisk.step m.sharing (t, op)).2, m.flushing⟩ : State τ) t =
        [] := by
      rw [waiting, free]
      exact (congrArg OpenFile.writeBacklog (handles_self m.sharing t op)).trans
        ((OpenFiles.step (m.sharing.handles t) op).2.idle stays)
    rw [empty, handles_self]
    exact .nil
  · rw [free] at loop
    cases loop

/-- A short call of a buffered handle waits with the writes that are queued, if any are. -/
theorem explains_short (explains : Explains pos disk past m front back) {t : τ} {op : FileOp}
    (free : m.flushing t = none) (buffered : (m.sharing.handles t).direct = false)
    (short : flushes (m.sharing.handles t) op = false)
    (path : DataPath (m.sharing.handles t) op) (within : Within (m.sharing.handles t) op) :
    ∃ new back', Explains pos disk
      (past ++ [.answers t op (SharedDisk.step m.sharing (t, op)).1])
      ⟨(SharedDisk.step m.sharing (t, op)).2, m.flushing⟩ (front ++ new) back' := by
  obtain ⟨file, backlog⟩ := short_spec buffered short
  have calls := queued_snoc (explains.queued t) (deferred_of_short buffered short path within)
  have before : waiting m t = (m.sharing.handles t).writeBacklog := by rw [waiting, free]
  have left : waiting (⟨(SharedDisk.step m.sharing (t, op)).2, m.flushing⟩ : State τ) t =
      waiting m t ++ (issued (m.sharing.handles t) op).toList := by
    rw [before, ← backlog, waiting, free]
    exact congrArg OpenFile.writeBacklog (handles_self m.sharing t op)
  have loops : ∀ op' rest, m.flushing t = some (op', rest) → flushes
      ((SharedDisk.step m.sharing (t, op)).2.handles t) op' = true := by
    intro op' rest loop
    rw [free] at loop
    cases loop
  rw [← left] at calls
  have position : ((SharedDisk.step m.sharing (t, op)).2.handles t).pos =
      (OpenFiles.step (m.sharing.handles t) op).2.pos := by
    rw [handles_self]
  rw [← position] at calls
  have same : ∀ s, ((SharedDisk.step m.sharing (t, op)).2.handles s).disk =
      (m.sharing.handles s).disk := by
    intro s
    rw [handles_disk, file, m.sharing.shared s t]
  generalize waits : waiting (⟨(SharedDisk.step m.sharing (t, op)).2, m.flushing⟩ : State τ) t =
    reqs at calls
  cases reqs with
  | nil =>
    obtain ⟨replies, moved⟩ := queued_run explains.isDirect calls
    rw [← serial_append] at moved
    refine ⟨_, explains_moves explains (aside_short m t op) (fun s => own_answered t s op _)
      (List.append_nil _).symm replies moved same ?_ (fun _ => rfl) loops⟩
    rw [waits]
    exact .nil
  | cons req rest =>
    refine ⟨_, explains_moves explains (aside_short m t op) (fun s => own_answered t s op _)
      (List.nil_append _).symm rfl (moved_nothing explains t) same ?_ (fun calm => ?_) loops⟩
    · rw [waits]
      exact calls
    · rw [waiting, free] at waits
      exact absurd (waits.symm.trans calm.2) (List.cons_ne_nil req rest)

theorem explains_begins (explains : Explains pos disk past m front back) {t : τ} {op : FileOp}
    (free : m.flushing t = none) (long : flushes (m.sharing.handles t) op = true) :
    ∃ new back', Explains pos disk (past ++ [.begins t op])
      ⟨m.sharing, update m.flushing t (some (op, (m.sharing.handles t).writeBacklog))⟩
      (front ++ new) back' := by
  have aside : Aside m
      ⟨m.sharing, update m.flushing t (some (op, (m.sharing.handles t).writeBacklog))⟩ t :=
    ⟨fun s other => update_of_ne other _ _, fun _ _ => rfl, fun _ _ => rfl, fun _ _ => rfl⟩
  have waits : waiting
      ⟨m.sharing, update m.flushing t (some (op, (m.sharing.handles t).writeBacklog))⟩ t =
        waiting m t := by
    simp only [waiting, update_self, free]
  have cut : own t back ++ [] = [] ++ own t back := List.append_nil _
  refine ⟨_, explains_moves explains aside (own_silent t rfl) cut rfl (moved_nothing explains t)
    (fun _ => rfl) ?_ (fun calm => ?_) fun op' rest loop => ?_⟩
  · rw [waits]
    exact explains.queued t
  · cases (update_self t _ m.flushing).symm.trans calm.1
  · change update m.flushing t _ t = _ at loop
    rw [update_self] at loop
    cases loop
    exact long

theorem explains_stores (explains : Explains pos disk past m front back) {t : τ} {op : FileOp}
    {req : WriteReq} {rest : List WriteReq} (loop : m.flushing t = some (op, req :: rest)) :
    ∃ new back', Explains pos disk (past ++ [.stores t req])
      ⟨store m.sharing req, update m.flushing t (some (op, rest))⟩ (front ++ new) back' := by
  have aside : Aside m ⟨store m.sharing req, update m.flushing t (some (op, rest))⟩ t :=
    ⟨fun s other => update_of_ne other _ _, fun _ _ => rfl, fun _ _ => rfl, fun _ _ => rfl⟩
  have queued := explains.queued t
  have waits : waiting m t = req :: rest := by rw [waiting, loop]
  rw [waits] at queued
  obtain ⟨first, later, middle, cut, front', back'⟩ := queued_split queued
  obtain ⟨replies, moved⟩ := queued_run explains.isDirect front'
  rw [← serial_append] at moved
  refine ⟨_, explains_moves explains aside (own_silent t rfl) ((List.append_nil _).trans cut)
    replies moved (fun _ => rfl) ?_ (fun calm => ?_) fun op' rest' loop' => ?_⟩
  · have left : waiting ⟨store m.sharing req, update m.flushing t (some (op, rest))⟩ t = rest := by
      simp only [waiting, update_self]
    rw [left]
    exact back'
  · cases (update_self t _ m.flushing).symm.trans calm.1
  · change update m.flushing t _ t = _ at loop'
    rw [update_self] at loop'
    cases loop'
    exact explains.loops t op (req :: rest) loop

/-- The file that a read finds after its loop has all writes that its handle queued. -/
theorem explains_ends (explains : Explains pos disk past m front back) {t : τ} {op : FileOp}
    (stored : m.flushing t = some (op, [])) :
    ∃ new back', Explains pos disk
      (past ++ [.answers t op (SharedDisk.step (clear m.sharing t) (t, op)).1])
      ⟨(SharedDisk.step (clear m.sharing t) (t, op)).2, update m.flushing t none⟩
      (front ++ new) back' := by
  have long := explains.loops t op [] stored
  obtain ⟨buffered, silent, inside⟩ := flushes_silent long
  have path : ∀ g, DataPath g op := fun g => ⟨by simp [InRange, silent], inside⟩
  have within : ∀ g, Within g op := fun g => by simp [Within, silent]
  have mine : (clear m.sharing t).handles t =
      { m.sharing.handles t with writeBacklog := [], idle := fun _ => rfl } := if_pos rfl
  have others : ∀ s, s ≠ t → (clear m.sharing t).handles s = m.sharing.handles s :=
    fun s other => if_neg other
  have long' : flushes ((clear m.sharing t).handles t) op = true := by
    rw [mine]
    cases op <;> exact long
  have unstuck : ¬((clear m.sharing t).handles t).Stuck := by
    rw [mine]
    exact fun ⟨_, member, _⟩ => List.not_mem_nil member
  obtain ⟨empty, file⟩ := flushes_spec unstuck long'
  have queued := explains.queued t
  have waits : waiting m t = [] := by rw [waiting, stored]
  rw [waits] at queued
  obtain ⟨replies, moved⟩ := queued_run explains.isDirect queued
  rw [← serial_append] at moved
  -- At the end of the loop the handle looks like a direct one that made its calls so far.
  have mirrors : Mirrors ((serial pos disk (front ++ ofHandle t (own t back))).handles t)
      ((clear m.sharing t).handles t) := by
    refine ⟨moved.direct t, by rwa [mine], unstuck, by rw [mine]; exact moved.pos, ?_⟩
    rw [mine, moved.disk]
    exact (explains.file t t).symm
  obtain ⟨same, mirrors'⟩ := mirrors_step mirrors (path _) (within _)
  have whole : ofHandle t (own t back ++ [(op, (SharedDisk.step (clear m.sharing t) (t, op)).1)]) =
      ofHandle t (own t back) ++
        ofHandle t [(op, (SharedDisk.step (clear m.sharing t) (t, op)).1)] := List.map_append
  have replies' : Replies (serial pos disk front)
      (ofHandle t (own t back ++ [(op, (SharedDisk.step (clear m.sharing t) (t, op)).1)])) := by
    rw [whole]
    refine replies_append replies ?_
    rw [← serial_append]
    exact congrArg (fun r => [r]) same
  have moved' := moved.trans (moved_step t op moved.direct)
  rw [silent] at moved'
  have moved'' : Moved (serial pos disk front) (serial pos disk (front ++
      ofHandle t (own t back ++ [(op, (SharedDisk.step (clear m.sharing t) (t, op)).1)]))) t []
      (OpenFiles.step ((clear m.sharing t).handles t) op).2.pos := by
    rw [whole, ← List.append_assoc, serial_append, ← mirrors'.pos]
    exact moved'
  have aside : Aside m
      ⟨(SharedDisk.step (clear m.sharing t) (t, op)).2, update m.flushing t none⟩ t := by
    refine ⟨fun s other => update_of_ne other _ _, fun s other => ?_, fun s other => ?_,
      fun s other => ?_⟩
    · rw [handles_other other, others s other]
    · rw [handles_other other, others s other]
    · rw [handles_other other, others s other]
  refine ⟨_, explains_moves explains aside (fun s => own_answered t s op _)
    (List.append_nil _).symm replies' moved'' (fun s => ?_) ?_ (fun _ => rfl)
    fun op' rest loop => ?_⟩
  · rw [handles_disk, file, mine, m.sharing.shared s t]
    rfl
  · have left : waiting
        ⟨(SharedDisk.step (clear m.sharing t) (t, op)).2, update m.flushing t none⟩ t = [] := by
      simp only [waiting, update_self, handles_self, empty]
    rw [left, handles_self]
    exact .nil
  · change update m.flushing t none t = _ at loop
    rw [update_self] at loop
    cases loop

theorem explains_step (explains : Explains pos disk past m front back) {e : Event τ}
    (taken : DataStep m e after) :
    ∃ new back', Explains pos disk (past ++ [e]) after (front ++ new) back' := by
  obtain ⟨step, path⟩ := taken
  cases step with
  | @short t op free short =>
    cases mode : (m.sharing.handles t).direct with
    | true => exact explains_direct explains free mode
    | false => exact explains_short explains free mode short path.1 path.2
  | begins free long => exact explains_begins explains free long
  | stores loop written => exact explains_stores explains loop
  | @throws t op req rest e loop thrown =>
    -- what is queued can be stored
    have waits : waiting m t = req :: rest := by rw [waiting, loop]
    have stores := queued_stores (explains.queued t) req (waits ▸ List.mem_cons_self)
    rw [DiskFile.write_value stores] at thrown
    cases thrown
  | ends stored => exact explains_ends explains stored

theorem explains_run (explains : Explains pos disk past m front back) {more : List (Event τ)}
    (path : Path DataStep m more after) :
    ∃ new back', Explains pos disk (past ++ more) after (front ++ new) back' := by
  induction path with
  | start => exact ⟨[], back, by rwa [List.append_nil, List.append_nil]⟩
  | snoc _ last ih =>
    obtain ⟨new, back', middle⟩ := ih
    obtain ⟨new', back'', final⟩ := explains_step middle last
    rw [List.append_assoc, List.append_assoc] at final
    exact ⟨new ++ new', back'', final⟩

/-- However calls overlap whose writes end within the size limit, their answers and the file
are those of direct handles that are called one after the other. The order of each handle is
kept, and a call that a settled handle has been answered comes before all that is answered
later: it stays in front. -/
theorem sequentially_consistent (kinds : τ → Bool) (pos : τ → U64) (disk : DiskFile)
    {first second : List (Event τ)} {m after : State τ}
    (path : Path DataStep (start kinds pos disk) first m)
    (later : Path DataStep m second after) :
    ∃ front back new back', Serial pos disk first m front back ∧
      Serial pos disk (first ++ second) after (front ++ new) back' := by
  obtain ⟨front, back, here⟩ := explains_run (explains_start kinds pos disk) path
  obtain ⟨new, back', there⟩ := explains_run here later
  exact ⟨front, back, new, back', explains_serial here, explains_serial there⟩

/-- Two flushes at once, of writes that overlap. -/
def crossing : List (Event Bool) :=
  [.answers true (.pwrite ⟨[1, 2], by decide⟩ 0) (.ok ⟨2, []⟩),
    .answers false (.pwrite ⟨[3, 4], by decide⟩ 1) (.ok ⟨2, []⟩), .begins true .fsync,
    .begins false (.pread 3 0), .stores false ⟨⟨[3, 4], by decide⟩, 1⟩,
    .stores true ⟨⟨[1, 2], by decide⟩, 0⟩, .answers false (.pread 3 0) (.ok ⟨3, [1, 2, 4]⟩)]

theorem crossing_path :
    ∃ m, Path DataStep (start (fun _ => false) (fun _ => 0) .empty) crossing m :=
  ⟨_, path_cons ⟨.short (t := true) rfl rfl, by decide⟩ <|
    path_cons ⟨.short (t := false) rfl rfl, by decide⟩ <|
    path_cons ⟨.begins rfl rfl, trivial⟩ <| path_cons ⟨.begins rfl rfl, trivial⟩ <|
    path_cons ⟨.stores rfl rfl, trivial⟩ <| path_cons ⟨.stores rfl rfl, trivial⟩ <|
    path_cons ⟨.ends rfl, by decide⟩ .start⟩

/-- The read begins before the other handle has stored, and finds its bytes. -/
theorem sequentially_consistent_crossing :
    ∃ m front back, Serial (fun _ => 0) .empty crossing m front back := by
  obtain ⟨m, path⟩ := crossing_path
  obtain ⟨front, back, -, -, here, -⟩ :=
    sequentially_consistent (fun _ => false) (fun _ => 0) .empty path .start
  exact ⟨m, front, back, here⟩

end Steps

end ConcurrentDisk
