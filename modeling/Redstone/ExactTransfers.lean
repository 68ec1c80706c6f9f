import Mathlib.Data.BitVec
import Redstone.MachineWords
import Redstone.RetryLoops
import Redstone.WriteHistories

/-!
# Exact transfers

`sys::file` repeats `read`, `pread` and `pwrite` until a whole buffer has been moved. The
kernel moves at least one byte if it can, or fails; `EINTR` and `EAGAIN` mean that the call
is made again. What it does at each call is a sequence fixed in advance. An `assert` is
recorded and never a branch.
-/

namespace ExactTransfers

open MachineWords RetryLoops StepRuns SparseArray

def EINTR : Nat := 4
def EAGAIN : Nat := 11
def EFBIG : Nat := 27

/-- The numbers that a failed call leaves in `errno`. -/
structure Errno where
  value : Nat
  positive : 0 < value
  small : value < 4096

/-- What the kernel does at a call: it moves `most + 1` bytes, or fewer where the buffer or
the file has fewer, or it fails. -/
inductive Answer where
  | transfers (most : Nat)
  | fails (errno : Errno)

namespace Answer

def Retries : Answer → Prop
  | transfers _ => False
  | fails errno => errno.value = EINTR ∨ errno.value = EAGAIN

def Fatal : Answer → Prop
  | transfers _ => False
  | fails errno => ¬(errno.value = EINTR ∨ errno.value = EAGAIN)

end Answer

/-- `MAX_RW_COUNT`, the most bytes that one call moves. -/
def maxCount : Nat := 0x7ffff000

/-- The largest size of a file, which is the largest `off_t`. -/
def maxBytes : Nat := 0x7fffffffffffffff

structure File where
  bytes : List Byte
  fits : bytes.length ≤ maxBytes

/-! ## The calls -/

/-- A result, the bytes it delivered and whether all assertions held. -/
structure Delivery where
  res : I64
  bytes : List Byte
  asserted : Bool

/-- The bytes that a read delivers, none at the end of the file. -/
def chunkAt (f : File) (position size most : Nat) : List Byte :=
  (f.bytes.drop position).take (min (min (most + 1) maxCount) size)

def read (f : File) (position size : Nat) : Answer → Delivery
  | .fails errno => ⟨failure 64 errno.value, [], decide (0 < errno.value)⟩
  | .transfers most =>
    let chunk := chunkAt f position size most
    ⟨BitVec.ofNat 64 chunk.length, chunk, true⟩

def readAt (f : File) (pos : U64) (size : Nat) (answer : Answer) : Delivery :=
  if pos.toInt < 0 then ⟨failure 64 EINVAL, [], true⟩ else read f pos.toNat size answer

/-- A result, the bytes that were stored and the file with them. -/
structure Storage where
  res : I64
  bytes : List Byte
  file : File

/-- The bytes that a write stores, none of them behind the largest offset. -/
def piece (offset : Nat) (buf : List Byte) (most : Nat) : List Byte :=
  buf.take (min (min (most + 1) maxCount) (maxBytes - offset))

theorem piece_fits (f : File) {offset : Nat} (inside : offset < maxBytes) (buf : List Byte)
    (most : Nat) : (put 0 f.bytes offset (piece offset buf most)).length ≤ maxBytes := by
  rw [length_put, piece, List.length_take]
  have fits := f.fits
  omega

def writeAt (f : File) (pos : U64) (buf : List Byte) (answer : Answer) : Storage :=
  if pos.toInt < 0 then ⟨failure 64 EINVAL, [], f⟩
  else match answer with
    | .fails errno => ⟨failure 64 errno.value, [], f⟩
    | .transfers most =>
      if inside : pos.toNat < maxBytes then
        let chunk := piece pos.toNat buf most
        ⟨BitVec.ofNat 64 chunk.length, chunk,
          ⟨put 0 f.bytes pos.toNat chunk, piece_fits f inside buf most⟩⟩
      else ⟨failure 64 EFBIG, [], f⟩

/-! ## The loops -/

/-- The test of `-res` in each of the loops. -/
def retried (res : I64) : Bool :=
  decide (-res = BitVec.ofNat 64 EINTR) || decide (-res = BitVec.ofNat 64 EAGAIN)

/-- A read on its way: where it goes on, how much of the buffer is left, and for the
statements what it got and whether all assertions held. -/
structure Reading (ι : Type) where
  pos : ι
  left : Nat
  got : List Byte
  asserted : Bool

structure ReadResult (w : Nat) where
  value : BitVec w
  got : List Byte
  asserted : Bool

/-- A round of `read_exact`; `pos` is the position that the kernel keeps. -/
def readExactRound (f : File) (s : Reading Nat) (answer : Answer) :
    Round (Reading Nat) (ReadResult 32) :=
  if s.left = 0 then .ends ⟨0, s.got, s.asserted⟩
  else
    let call := read f s.pos s.left answer
    let asserted := s.asserted && decide (s.left ≠ 0) && call.asserted
    if call.res.toInt < 0 then
      if retried call.res then .continues { s with asserted }
      else .ends ⟨call.res.setWidth 32, s.got, asserted⟩
    else if call.res = 0 then .ends ⟨failure 32 EINVAL, s.got, asserted⟩
    else .continues ⟨s.pos + call.bytes.length, s.left - call.res.toNat, s.got ++ call.bytes,
      asserted⟩

/-- A round of `read_exact_at`, which asserts that the call did not return zero. -/
def readExactAtRound (f : File) (s : Reading U64) (answer : Answer) :
    Round (Reading U64) (ReadResult 64) :=
  if s.left = 0 then .ends ⟨0, s.got, s.asserted⟩
  else
    let call := readAt f s.pos s.left answer
    let asserted := s.asserted && decide (s.left ≠ 0) && call.asserted
    if call.res.toInt < 0 then
      if retried call.res then .continues { s with asserted }
      else .ends ⟨call.res, s.got, asserted⟩
    else .continues ⟨s.pos + call.res, s.left - call.res.toNat, s.got ++ call.bytes,
      asserted && decide (call.res ≠ 0)⟩

structure Writing where
  pos : U64
  buf : List Byte
  stored : List Byte
  file : File

structure WriteResult where
  value : I64
  stored : List Byte
  file : File

def writeAllAtRound (s : Writing) (answer : Answer) : Round Writing WriteResult :=
  if s.buf = [] then .ends ⟨0, s.stored, s.file⟩
  else
    let call := writeAt s.file s.pos s.buf answer
    if call.res.toInt < 0 then
      if retried call.res then .continues { s with file := call.file }
      else .ends ⟨call.res, s.stored, call.file⟩
    else .continues ⟨s.pos + call.res, s.buf.drop call.res.toNat, s.stored ++ call.bytes,
      call.file⟩

def readExact (f : File) (answers : Nat → Answer) (position size fuel : Nat) :
    Option (ReadResult 32) :=
  loop (readExactRound f) answers fuel 0 ⟨position, size, [], true⟩

def readExactAt (f : File) (answers : Nat → Answer) (pos : U64) (size fuel : Nat) :
    Option (ReadResult 64) :=
  loop (readExactAtRound f) answers fuel 0 ⟨pos, size, [], true⟩

def writeAllAt (f : File) (answers : Nat → Answer) (pos : U64) (buf : List Byte) (fuel : Nat) :
    Option WriteResult :=
  loop writeAllAtRound answers fuel 0 ⟨pos, buf, [], f⟩

/-! ## What they should do -/

/-- The read got bytes of the file from `origin` on, and it returns zero if they fill the
buffer and a negative error otherwise. -/
structure Told {w : Nat} (f : File) (origin size : Nat) (r : ReadResult w) : Prop where
  bytes : r.got = (f.bytes.drop origin).take r.got.length
  zero_iff : r.value = 0 ↔ r.got.length = size
  negative : r.value ≠ 0 → r.value.toInt < 0

/-- The read ends, and no assertion fails. -/
def ExactRead {w : Nat} (f : File) (origin size : Nat) (run : Nat → Option (ReadResult w)) :
    Prop :=
  ∃ r, Ends run r ∧ r.asserted = true ∧ Told f origin size r

/-- The bytes of a file after some were stored, one after the other. -/
def placed (bytes : List Byte) (offset : Nat) (stored : List Byte) : List Byte :=
  if stored = [] then bytes else put 0 bytes offset stored

/-- The write stored bytes of the buffer from its start on, one after the other from
`origin` on, and it returns zero if these are all and a negative error otherwise. -/
structure StoreTold (f : File) (origin : Nat) (buf : List Byte) (r : WriteResult) : Prop where
  bytes : r.stored = buf.take r.stored.length
  file : r.file.bytes = placed f.bytes origin r.stored
  zero_iff : r.value = 0 ↔ r.stored = buf
  negative : r.value ≠ 0 → r.value.toInt < 0

def ExactWrite (f : File) (origin : Nat) (buf : List Byte) (run : Nat → Option WriteResult) :
    Prop :=
  ∃ r, Ends run r ∧ StoreTold f origin buf r

/-- How many bytes the first `n` answers move, in a file and a buffer that have them. -/
def granted (answers : Nat → Answer) : Nat → Nat
  | 0 => 0
  | n + 1 => granted answers n + match answers n with
    | .transfers most => min (most + 1) maxCount
    | .fails _ => 0

/-- `pread` is asked for bytes at the end of the file: the range extends past it, and before
any error ends the loop the answers have moved all bytes up to it and the next one moves
some. -/
def EndAsked (f : File) (answers : Nat → Answer) (pos : U64) (size : Nat) : Prop :=
  ¬pos.toInt < 0 ∧ f.bytes.length - pos.toNat < size ∧
    ∃ k, (∀ i < k, ¬(answers i).Fatal) ∧ (∃ most, answers k = .transfers most) ∧
      f.bytes.length - pos.toNat ≤ granted answers k

/-! ## Results as words -/

theorem failure_toNat {w n : Nat} (positive : 0 < n) (small : n < 4096) (wide : 13 ≤ w) :
    (failure w n).toNat = 2 ^ w - n := by
  have room : 2 ^ 13 ≤ 2 ^ w := Nat.pow_le_pow_right (by decide) wide
  have inside : n < 2 ^ w := by omega
  rw [MachineWords.failure, BitVec.toNat_neg, BitVec.toNat_ofNat, Nat.mod_eq_of_lt inside,
    Nat.mod_eq_of_lt (by omega)]

theorem failure_negative (errno : Errno) {w : Nat} (wide : 13 ≤ w) :
    (failure w errno.value).toInt < 0 := by
  have room : 2 ^ 13 ≤ 2 ^ w := Nat.pow_le_pow_right (by decide) wide
  have small := errno.small
  rw [BitVec.toInt_neg_iff, failure_toNat errno.positive small wide]
  omega

theorem failure_narrow (errno : Errno) :
    (failure 64 errno.value).setWidth 32 = failure 32 errno.value := by
  have positive := errno.positive
  have small := errno.small
  apply BitVec.eq_of_toNat_eq
  rw [BitVec.toNat_setWidth, failure_toNat positive small (by decide),
    failure_toNat positive small (by decide)]
  omega

theorem retried_iff (errno : Errno) :
    retried (failure 64 errno.value) = true ↔ errno.value = EINTR ∨ errno.value = EAGAIN := by
  have small := errno.small
  have same : ∀ n : Nat, n < 4096 →
      (-failure 64 errno.value = BitVec.ofNat 64 n ↔ errno.value = n) := by
    intro n bound
    rw [MachineWords.failure, BitVec.neg_neg, ← BitVec.toNat_inj, BitVec.toNat_ofNat,
      BitVec.toNat_ofNat]
    omega
  rw [retried, Bool.or_eq_true, decide_eq_true_iff, decide_eq_true_iff, same EINTR (by decide),
    same EAGAIN (by decide)]

theorem count_toNat {n : Nat} (bound : n ≤ maxCount) : (BitVec.ofNat 64 n).toNat = n := by
  rw [maxCount] at bound
  rw [BitVec.toNat_ofNat]
  omega

theorem count_nonneg {n : Nat} (bound : n ≤ maxCount) : ¬(BitVec.ofNat 64 n).toInt < 0 := by
  rw [BitVec.toInt_neg_iff, count_toNat bound]
  rw [maxCount] at bound
  omega

theorem count_eq_zero {n : Nat} (bound : n ≤ maxCount) : BitVec.ofNat 64 n = 0 ↔ n = 0 := by
  rw [← BitVec.toNat_inj, count_toNat bound]
  rfl

/-! ## One round -/

section Rounds
variable {f : File}

/-- A buffer that is not empty passes its assertion, and `errno` does. -/
theorem asserted_kept {left : Nat} (some : left ≠ 0) (asserted : Bool) :
    (asserted && decide (left ≠ 0) && true) = asserted := by
  rw [decide_eq_true some, Bool.and_true, Bool.and_true]

theorem length_chunkAt (f : File) (position size most : Nat) :
    (chunkAt f position size most).length =
      min (min (min (most + 1) maxCount) size) (f.bytes.length - position) := by
  rw [chunkAt, List.length_take, List.length_drop]

theorem chunkAt_le (f : File) (position size most : Nat) :
    (chunkAt f position size most).length ≤ maxCount := by
  rw [length_chunkAt]
  omega

theorem readExactRound_fails {s : Reading Nat} (some : s.left ≠ 0) (errno : Errno) :
    readExactRound f s (.fails errno) = if errno.value = EINTR ∨ errno.value = EAGAIN then
      .continues s else .ends ⟨failure 32 errno.value, s.got, s.asserted⟩ := by
  rw [readExactRound, if_neg some]
  simp only [read, if_pos (failure_negative errno (by decide : 13 ≤ 64)), retried_iff,
    decide_eq_true errno.positive, asserted_kept some, failure_narrow]

theorem readExactRound_transfers {s : Reading Nat} (some : s.left ≠ 0) (most : Nat) :
    readExactRound f s (.transfers most) =
      if chunkAt f s.pos s.left most = [] then .ends ⟨failure 32 EINVAL, s.got, s.asserted⟩
      else .continues ⟨s.pos + (chunkAt f s.pos s.left most).length,
        s.left - (chunkAt f s.pos s.left most).length, s.got ++ chunkAt f s.pos s.left most,
        s.asserted⟩ := by
  have bound := chunkAt_le f s.pos s.left most
  rw [readExactRound, if_neg some]
  simp only [read, if_neg (count_nonneg bound), asserted_kept some, count_eq_zero bound,
    count_toNat bound, List.length_eq_zero_iff]

theorem readExactAtRound_behind {s : Reading U64} (some : s.left ≠ 0) (behind : s.pos.toInt < 0)
    (answer : Answer) :
    readExactAtRound f s answer = .ends ⟨failure 64 EINVAL, s.got, s.asserted⟩ := by
  have negative : (failure 64 EINVAL).toInt < 0 := by decide
  have final : ¬retried (failure 64 EINVAL) = true := by decide
  rw [readExactAtRound, if_neg some]
  simp only [readAt, if_pos behind, if_pos negative, if_neg final, asserted_kept some]

theorem readExactAtRound_fails {s : Reading U64} (some : s.left ≠ 0) (inside : ¬s.pos.toInt < 0)
    (errno : Errno) :
    readExactAtRound f s (.fails errno) = if errno.value = EINTR ∨ errno.value = EAGAIN then
      .continues s else .ends ⟨failure 64 errno.value, s.got, s.asserted⟩ := by
  rw [readExactAtRound, if_neg some]
  simp only [readAt, if_neg inside, read, if_pos (failure_negative errno (by decide : 13 ≤ 64)),
    retried_iff, decide_eq_true errno.positive, asserted_kept some]

/-- At the end of the file nothing moves and the assertion fails. -/
theorem readExactAtRound_transfers {s : Reading U64} (some : s.left ≠ 0)
    (inside : ¬s.pos.toInt < 0) (most : Nat) :
    readExactAtRound f s (.transfers most) =
      .continues ⟨s.pos + BitVec.ofNat 64 (chunkAt f s.pos.toNat s.left most).length,
        s.left - (chunkAt f s.pos.toNat s.left most).length,
        s.got ++ chunkAt f s.pos.toNat s.left most,
        s.asserted && decide (chunkAt f s.pos.toNat s.left most ≠ [])⟩ := by
  have bound := chunkAt_le f s.pos.toNat s.left most
  rw [readExactAtRound, if_neg some]
  simp only [readAt, if_neg inside, read, if_neg (count_nonneg bound), asserted_kept some, ne_eq,
    count_eq_zero bound, count_toNat bound, List.length_eq_zero_iff]

end Rounds

/-- A failed call is made again, which keeps the state, or ends the loop. -/
theorem ensures_fails {σ ρ : Type} {answers : Nat → Answer} {Inv : Nat → σ → Prop}
    {measure : σ → Nat} {Post : ρ → Prop} {i : Nat} {s : σ} {r : ρ} {errno : Errno}
    (answer : answers i = .fails errno)
    (kept : errno.value = EINTR ∨ errno.value = EAGAIN → Inv (i + 1) s) (told : Post r) :
    (if errno.value = EINTR ∨ errno.value = EAGAIN then Round.continues s else .ends r).Ensures
      (Advances Answer.Retries answers Inv measure i s) Post := by
  by_cases again : errno.value = EINTR ∨ errno.value = EAGAIN
  · rw [if_pos again]
    refine ⟨kept again, Nat.le_refl _, fun other => ?_⟩
    rw [answer] at other
    exact absurd again other
  · rw [if_neg again]
    exact told

/-! ## Reads -/

section Reads
variable {f : File} {answers : Nat → Answer}

/-- What was got are the bytes from `origin` on, and the rest of the buffer is left. -/
structure Filling (f : File) (origin size : Nat) (got : List Byte) (left : Nat) : Prop where
  bytes : got = (f.bytes.drop origin).take got.length
  total : got.length + left = size

theorem filling_start (f : File) (origin size : Nat) : Filling f origin size [] size :=
  ⟨rfl, Nat.zero_add size⟩

theorem filling_chunk {origin size left : Nat} {got : List Byte}
    (filling : Filling f origin size got left) (most : Nat) :
    Filling f origin size (got ++ chunkAt f (origin + got.length) left most)
      (left - (chunkAt f (origin + got.length) left most).length) := by
  constructor
  · have chunk : chunkAt f (origin + got.length) left most =
        (f.bytes.drop (origin + got.length)).take
          (chunkAt f (origin + got.length) left most).length := by
      rw [chunkAt, List.length_take]
      exact List.take_eq_take_min
    rw [List.length_append, List.take_add, ← filling.bytes, List.drop_drop, ← chunk]
  · have bound : (chunkAt f (origin + got.length) left most).length ≤ left := by
      rw [length_chunkAt]
      omega
    have total := filling.total
    rw [List.length_append]
    omega

theorem told_full {w origin size : Nat} {got : List Byte} (asserted : Bool)
    (filling : Filling f origin size got 0) :
    Told f origin size (⟨0, got, asserted⟩ : ReadResult w) :=
  ⟨filling.bytes, iff_of_true rfl filling.total, fun other => absurd rfl other⟩

theorem told_failed {w origin size left : Nat} {got : List Byte} {value : BitVec w}
    (asserted : Bool) (filling : Filling f origin size got left) (some : left ≠ 0)
    (negative : value.toInt < 0) : Told f origin size (⟨value, got, asserted⟩ : ReadResult w) := by
  have total := filling.total
  have nonzero : value ≠ 0 := by
    rintro rfl
    exact absurd negative (by rw [BitVec.ofNat_eq_ofNat, BitVec.toInt_zero]; decide)
  have part : got.length ≠ size := by omega
  exact ⟨filling.bytes, iff_of_false nonzero part, fun _ => negative⟩

theorem chunkAt_eq_nil_iff (f : File) (position most : Nat) {size : Nat} (some : size ≠ 0) :
    chunkAt f position size most = [] ↔ f.bytes.length ≤ position := by
  have positive : 0 < maxCount := by decide
  rw [← List.length_eq_zero_iff, length_chunkAt]
  omega

structure ReadingAt (f : File) (position size : Nat) (s : Reading Nat) : Prop where
  pos : s.pos = position + s.got.length
  filling : Filling f position size s.got s.left
  asserted : s.asserted = true

theorem readExact_spec {position size : Nat} {s : Reading Nat} (i : Nat)
    (here : ReadingAt f position size s) :
    (readExactRound f s (answers i)).Ensures
      (Advances Answer.Retries answers (fun _ => ReadingAt f position size) Reading.left i s)
      (fun r => r.asserted = true ∧ Told f position size r) := by
  by_cases done : s.left = 0
  · rw [readExactRound, if_pos done]
    exact ⟨here.asserted, told_full _ (done ▸ here.filling)⟩
  · cases answer : answers i with
    | fails errno =>
      have told := told_failed s.asserted here.filling done
        (failure_negative errno (by decide : 13 ≤ 32))
      rw [readExactRound_fails done]
      exact ensures_fails answer (fun _ => here) ⟨here.asserted, told⟩
    | transfers most =>
      rw [readExactRound_transfers done, here.pos]
      by_cases last : chunkAt f (position + s.got.length) s.left most = []
      · rw [if_pos last]
        exact ⟨here.asserted, told_failed _ here.filling done (by decide)⟩
      · rw [if_neg last]
        have some := List.length_pos_iff.mpr last
        refine ⟨⟨?_, filling_chunk here.filling most, here.asserted⟩, Nat.sub_le _ _, fun _ => ?_⟩
        · rw [List.length_append, Nat.add_assoc]
        · change s.left - _ < s.left
          omega

theorem readExact_exact (fair : Fair Answer.Retries answers) (position size : Nat) :
    ExactRead f position size (readExact f answers position size) := by
  have start : ReadingAt f position size ⟨position, size, [], true⟩ :=
    ⟨rfl, filling_start f position size, rfl⟩
  exact loop_total fair (fun i _ => readExact_spec i) start

/-- Where `read_exact_at` stands before call `i`. In a range that extends past the end it
has got all that the answers granted, up to the end. -/
structure AtCall (f : File) (answers : Nat → Answer) (pos : U64) (size i : Nat)
    (s : Reading U64) : Prop where
  position : s.pos.toNat = pos.toNat + s.got.length
  filling : Filling f pos.toNat size s.got s.left
  moved : f.bytes.length - pos.toNat < size →
    s.got.length = min (f.bytes.length - pos.toNat) (granted answers i)
  alive : ∀ j < i, ¬(answers j).Fatal

theorem atCall_start (f : File) (answers : Nat → Answer) (pos : U64) (size : Nat) :
    AtCall f answers pos size 0 ⟨pos, size, [], true⟩ where
  position := rfl
  filling := filling_start f pos.toNat size
  moved _ := (Nat.min_zero _).symm
  alive j before := absurd before (Nat.not_lt_zero j)

theorem atCall_inside {pos : U64} {size i : Nat} {s : Reading U64}
    (here : AtCall f answers pos size i s) (inside : ¬pos.toInt < 0) : ¬s.pos.toInt < 0 := by
  have bytes := congrArg List.length here.filling.bytes
  have position := here.position
  have fits := f.fits
  rw [List.length_take, List.length_drop] at bytes
  rw [BitVec.toInt_neg_iff] at inside ⊢
  rw [maxBytes] at fits
  omega

theorem alive_succ {i : Nat} (alive : ∀ j < i, ¬(answers j).Fatal) (next : ¬(answers i).Fatal) :
    ∀ j < i + 1, ¬(answers j).Fatal := by
  intro j before
  rcases Nat.lt_succ_iff_lt_or_eq.mp before with earlier | rfl
  · exact alive j earlier
  · exact next

theorem granted_fails {i : Nat} {errno : Errno} (answer : answers i = .fails errno) :
    granted answers (i + 1) = granted answers i := by
  simp only [granted, answer, Nat.add_zero]

theorem granted_transfers {i most : Nat} (answer : answers i = .transfers most) :
    granted answers (i + 1) = granted answers i + min (most + 1) maxCount := by
  simp only [granted, answer]

theorem atCall_retry {pos : U64} {size i : Nat} {s : Reading U64} {errno : Errno}
    (here : AtCall f answers pos size i s) (answer : answers i = .fails errno)
    (again : errno.value = EINTR ∨ errno.value = EAGAIN) :
    AtCall f answers pos size (i + 1) s where
  position := here.position
  filling := here.filling
  moved past := by
    rw [granted_fails answer]
    exact here.moved past
  alive := alive_succ here.alive (by rw [answer]; exact not_not.mpr again)

theorem atCall_transfers {pos : U64} {size i most : Nat} {s : Reading U64} {asserted : Bool}
    (here : AtCall f answers pos size i s) (inside : ¬pos.toInt < 0)
    (answer : answers i = .transfers most) :
    AtCall f answers pos size (i + 1)
      ⟨s.pos + BitVec.ofNat 64 (chunkAt f s.pos.toNat s.left most).length,
        s.left - (chunkAt f s.pos.toNat s.left most).length,
        s.got ++ chunkAt f s.pos.toNat s.left most, asserted⟩ := by
  have small := chunkAt_le f s.pos.toNat s.left most
  have length := length_chunkAt f s.pos.toNat s.left most
  have here_inside := atCall_inside here inside
  have filling := filling_chunk here.filling most
  rw [← here.position] at filling
  refine ⟨?_, filling, fun past => ?_, alive_succ here.alive (by rw [answer]; exact not_false)⟩
  · have position := here.position
    rw [BitVec.toInt_neg_iff] at here_inside
    rw [BitVec.toNat_add, count_toNat small, List.length_append, ← Nat.add_assoc, ← position]
    rw [maxCount] at small
    exact Nat.mod_eq_of_lt (by omega)
  · have moved := here.moved past
    have total := here.filling.total
    have position := here.position
    rw [granted_transfers answer, List.length_append, length, position]
    generalize min (most + 1) maxCount = count
    omega

/-- A call that finds nothing left is one at the end of the file. -/
theorem endAsked_of_nil {pos : U64} {size i most : Nat} {s : Reading U64}
    (here : AtCall f answers pos size i s) (inside : ¬pos.toInt < 0) (some : s.left ≠ 0)
    (answer : answers i = .transfers most) (nothing : chunkAt f s.pos.toNat s.left most = []) :
    EndAsked f answers pos size := by
  have total := here.filling.total
  have reached := (chunkAt_eq_nil_iff f s.pos.toNat most some).mp nothing
  rw [here.position] at reached
  have past : f.bytes.length - pos.toNat < size := by omega
  have moved := here.moved past
  exact ⟨inside, past, i, here.alive, ⟨most, answer⟩, by omega⟩

theorem readExactAt_spec {pos : U64} {size : Nat} (inside : ¬pos.toInt < 0)
    (never : ¬EndAsked f answers pos size) (i : Nat) {s : Reading U64}
    (here : AtCall f answers pos size i s ∧ s.asserted = true) :
    (readExactAtRound f s (answers i)).Ensures
      (Advances Answer.Retries answers
        (fun i s => AtCall f answers pos size i s ∧ s.asserted = true) Reading.left i s)
      (fun r => r.asserted = true ∧ Told f pos.toNat size r) := by
  obtain ⟨here, asserted⟩ := here
  have here_inside := atCall_inside here inside
  by_cases done : s.left = 0
  · rw [readExactAtRound, if_pos done]
    exact ⟨asserted, told_full _ (done ▸ here.filling)⟩
  · cases answer : answers i with
    | fails errno =>
      have told := told_failed s.asserted here.filling done
        (failure_negative errno (by decide : 13 ≤ 64))
      rw [readExactAtRound_fails done here_inside]
      exact ensures_fails answer (fun again => ⟨atCall_retry here answer again, asserted⟩)
        ⟨asserted, told⟩
    | transfers most =>
      rw [readExactAtRound_transfers done here_inside]
      have moves : chunkAt f s.pos.toNat s.left most ≠ [] :=
        fun nothing => never (endAsked_of_nil here inside done answer nothing)
      have some := List.length_pos_iff.mpr moves
      refine ⟨⟨atCall_transfers here inside answer, ?_⟩, Nat.sub_le _ _, fun _ => ?_⟩
      · rw [asserted, decide_eq_true moves]
        rfl
      · change s.left - _ < s.left
        omega

/-- A failed assertion stays recorded. -/
theorem readExactAt_failed {s : Reading U64} (failed : s.asserted = false) (answer : Answer) :
    (readExactAtRound f s answer).Ensures (fun s' => s'.asserted = false)
      (fun r => r.asserted = false) := by
  by_cases done : s.left = 0
  · rw [readExactAtRound, if_pos done]
    exact failed
  by_cases behind : s.pos.toInt < 0
  · rw [readExactAtRound_behind done behind]
    exact failed
  cases answer with
  | fails errno =>
    rw [readExactAtRound_fails done behind]
    split
    · exact failed
    · exact failed
  | transfers most =>
    rw [readExactAtRound_transfers done behind, failed, Bool.false_and]
    rfl

/-- Up to call `k` the loop goes on, and after it an assertion has failed. -/
def Asking (f : File) (answers : Nat → Answer) (pos : U64) (size k i : Nat) (s : Reading U64) :
    Prop :=
  (i ≤ k ∧ AtCall f answers pos size i s) ∨ s.asserted = false

theorem readExactAt_asks {pos : U64} {size k most : Nat} (inside : ¬pos.toInt < 0)
    (past : f.bytes.length - pos.toNat < size) (alive : ∀ i < k, ¬(answers i).Fatal)
    (last : answers k = .transfers most)
    (reached : f.bytes.length - pos.toNat ≤ granted answers k) (i : Nat) {s : Reading U64}
    (here : Asking f answers pos size k i s) :
    (readExactAtRound f s (answers i)).Ensures (Asking f answers pos size k (i + 1))
      (fun r => r.asserted = false) := by
  rcases here with ⟨before, here⟩ | failed
  · have here_inside := atCall_inside here inside
    have total := here.filling.total
    have moved := here.moved past
    have some : s.left ≠ 0 := by omega
    cases answer : answers i with
    | fails errno =>
      have earlier : i < k := by
        refine Nat.lt_of_le_of_ne before fun same => ?_
        rw [same, last] at answer
        cases answer
      have again : errno.value = EINTR ∨ errno.value = EAGAIN := by
        have notFatal := alive i earlier
        rw [answer] at notFatal
        exact not_not.mp notFatal
      rw [readExactAtRound_fails some here_inside, if_pos again]
      exact Or.inl ⟨earlier, atCall_retry here answer again⟩
    | transfers most =>
      rw [readExactAtRound_transfers some here_inside]
      rcases Nat.lt_or_eq_of_le before with earlier | rfl
      · exact Or.inl ⟨earlier, atCall_transfers here inside answer⟩
      · right
        have nothing : chunkAt f s.pos.toNat s.left most = [] := by
          rw [chunkAt_eq_nil_iff f _ most some, here.position]
          omega
        rw [nothing]
        exact Bool.and_false _
  · exact (readExactAt_failed failed (answers i)).mono fun _ => Or.inr

/-- Once the end has been asked, no result has all assertions behind it. -/
theorem readExactAt_past_end {pos : U64} {size fuel : Nat} {r : ReadResult 64}
    (asked : EndAsked f answers pos size)
    (ended : readExactAt f answers pos size fuel = some r) : r.asserted = false := by
  obtain ⟨inside, past, k, alive, ⟨most, last⟩, reached⟩ := asked
  have start : Asking f answers pos size k 0 ⟨pos, size, [], true⟩ :=
    Or.inl ⟨Nat.zero_le k, atCall_start f answers pos size⟩
  have spec : ∀ (i : Nat) (s : Reading U64), Asking f answers pos size k i s →
      (readExactAtRound f s (answers i)).Ensures (Asking f answers pos size k (i + 1))
        (fun r => r.asserted = false) :=
    fun i _ => readExactAt_asks inside past alive last reached i
  have result := loop_result spec start ended
  exact result

/-- As long as no error comes, the loop asks at the end of the file for ever. -/
theorem readExactAt_spins {pos : U64} {size : Nat} (inside : ¬pos.toInt < 0)
    (past : f.bytes.length - pos.toNat < size) (alive : ∀ i, ¬(answers i).Fatal) (fuel : Nat) :
    readExactAt f answers pos size fuel = none := by
  have spec : ∀ (i : Nat) (s : Reading U64), AtCall f answers pos size i s →
      (readExactAtRound f s (answers i)).Ensures (AtCall f answers pos size (i + 1))
        (fun _ => False) := by
    intro i s here
    have here_inside := atCall_inside here inside
    have total := here.filling.total
    have moved := here.moved past
    have some : s.left ≠ 0 := by omega
    cases answer : answers i with
    | fails errno =>
      have again : errno.value = EINTR ∨ errno.value = EAGAIN := by
        have notFatal := alive i
        rw [answer] at notFatal
        exact not_not.mp notFatal
      rw [readExactAtRound_fails some here_inside, if_pos again]
      exact atCall_retry here answer again
    | transfers most =>
      rw [readExactAtRound_transfers some here_inside]
      exact atCall_transfers here inside answer
  cases ended : readExactAt f answers pos size fuel with
  | none => rfl
  | some r => exact (loop_result spec (atCall_start f answers pos size) ended).elim

theorem readExactAt_behind (fair : Fair Answer.Retries answers) {pos : U64} (size : Nat)
    (behind : pos.toInt < 0) : ExactRead f pos.toNat size (readExactAt f answers pos size) := by
  have spec : ∀ (i : Nat) (s : Reading U64), s = ⟨pos, size, [], true⟩ →
      (readExactAtRound f s (answers i)).Ensures
        (Advances Answer.Retries answers (fun _ s => s = ⟨pos, size, [], true⟩) Reading.left i s)
        (fun r => r.asserted = true ∧ Told f pos.toNat size r) := by
    rintro i s rfl
    by_cases done : size = 0
    · rw [readExactAtRound, if_pos done]
      exact ⟨rfl, told_full _ (done ▸ filling_start f pos.toNat size)⟩
    · have last := @readExactAtRound_behind f ⟨pos, size, [], true⟩ done behind (answers i)
      rw [last]
      exact ⟨rfl, told_failed _ (filling_start f pos.toNat size) done (by decide)⟩
  exact loop_total fair spec rfl

theorem readExactAt_exact_iff (fair : Fair Answer.Retries answers) (pos : U64) (size : Nat) :
    ExactRead f pos.toNat size (readExactAt f answers pos size) ↔
      ¬EndAsked f answers pos size := by
  constructor
  · rintro ⟨r, ends, asserted, _⟩ asked
    obtain ⟨fuel, ended⟩ := ends_some ends
    rw [readExactAt_past_end asked ended] at asserted
    cases asserted
  · intro never
    by_cases behind : pos.toInt < 0
    · exact readExactAt_behind fair size behind
    · exact loop_total fair (fun i _ => readExactAt_spec behind never i)
        ⟨atCall_start f answers pos size, rfl⟩

end Reads

/-! ## Writes -/

section Writes
variable {f : File} {answers : Nat → Answer}

theorem writeAllAtRound_behind {s : Writing} (some : s.buf ≠ []) (behind : s.pos.toInt < 0)
    (answer : Answer) :
    writeAllAtRound s answer = .ends ⟨failure 64 EINVAL, s.stored, s.file⟩ := by
  have negative : (failure 64 EINVAL).toInt < 0 := by decide
  have final : ¬retried (failure 64 EINVAL) = true := by decide
  rw [writeAllAtRound, if_neg some]
  simp only [writeAt, if_pos behind, if_pos negative, if_neg final]

theorem writeAllAtRound_fails {s : Writing} (some : s.buf ≠ []) (inside : ¬s.pos.toInt < 0)
    (errno : Errno) :
    writeAllAtRound s (.fails errno) = if errno.value = EINTR ∨ errno.value = EAGAIN then
      .continues s else .ends ⟨failure 64 errno.value, s.stored, s.file⟩ := by
  rw [writeAllAtRound, if_neg some]
  simp only [writeAt, if_neg inside, if_pos (failure_negative errno (by decide : 13 ≤ 64)),
    retried_iff]

theorem writeAllAtRound_full {s : Writing} (some : s.buf ≠ []) (inside : ¬s.pos.toInt < 0)
    (full : ¬s.pos.toNat < maxBytes) (most : Nat) :
    writeAllAtRound s (.transfers most) = .ends ⟨failure 64 EFBIG, s.stored, s.file⟩ := by
  have negative : (failure 64 EFBIG).toInt < 0 := by decide
  have final : ¬retried (failure 64 EFBIG) = true := by decide
  rw [writeAllAtRound, if_neg some]
  simp only [writeAt, if_neg inside, dif_neg full, if_pos negative, if_neg final]

theorem length_piece (offset : Nat) (buf : List Byte) (most : Nat) :
    (piece offset buf most).length =
      min (min (min (most + 1) maxCount) (maxBytes - offset)) buf.length := by
  rw [piece, List.length_take]

theorem piece_eq (offset : Nat) (buf : List Byte) (most : Nat) :
    piece offset buf most = buf.take (piece offset buf most).length := by
  rw [length_piece, piece]
  exact List.take_eq_take_min

theorem writeAllAtRound_transfers {s : Writing} (some : s.buf ≠ [])
    (room : s.pos.toNat < maxBytes) (most : Nat) :
    writeAllAtRound s (.transfers most) =
      .continues ⟨s.pos + BitVec.ofNat 64 (piece s.pos.toNat s.buf most).length,
        s.buf.drop (piece s.pos.toNat s.buf most).length, s.stored ++ piece s.pos.toNat s.buf most,
        ⟨put 0 s.file.bytes s.pos.toNat (piece s.pos.toNat s.buf most),
          piece_fits s.file room s.buf most⟩⟩ := by
  have inside : ¬s.pos.toInt < 0 := by
    rw [BitVec.toInt_neg_iff]
    rw [maxBytes] at room
    omega
  have bound : (piece s.pos.toNat s.buf most).length ≤ maxCount := by
    rw [length_piece]
    omega
  rw [writeAllAtRound, if_neg some]
  simp only [writeAt, if_neg inside, dif_pos room, if_neg (count_nonneg bound),
    count_toNat bound]

/-- Where `write_all_at` stands: the file has what was stored, and the rest is to come. -/
structure WritingAt (f : File) (pos : U64) (buf : List Byte) (s : Writing) : Prop where
  position : s.pos.toNat = pos.toNat + s.stored.length
  whole : s.stored ++ s.buf = buf
  file : s.file.bytes = placed f.bytes pos.toNat s.stored

theorem storeTold_full {pos : U64} {buf : List Byte} {s : Writing}
    (here : WritingAt f pos buf s) (done : s.buf = []) :
    StoreTold f pos.toNat buf ⟨0, s.stored, s.file⟩ := by
  have all : s.stored = buf := by rw [← here.whole, done, List.append_nil]
  refine ⟨?_, here.file, iff_of_true rfl all, fun other => absurd rfl other⟩
  rw [all, List.take_length]

theorem storeTold_failed {pos : U64} {buf : List Byte} {s : Writing} {value : I64}
    (here : WritingAt f pos buf s) (some : s.buf ≠ []) (negative : value.toInt < 0) :
    StoreTold f pos.toNat buf ⟨value, s.stored, s.file⟩ := by
  have nonzero : value ≠ 0 := by
    rintro rfl
    exact absurd negative (by decide)
  have part : s.stored ≠ buf := by
    intro all
    have whole := here.whole
    rw [all] at whole
    exact some (List.append_right_eq_self.mp whole)
  refine ⟨?_, here.file, iff_of_false nonzero part, fun _ => negative⟩
  rw [← here.whole, List.take_left]

theorem placed_append (bytes : List Byte) (offset : Nat) {stored chunk : List Byte}
    (some : chunk ≠ []) :
    put 0 (placed bytes offset stored) (offset + stored.length) chunk =
      placed bytes offset (stored ++ chunk) := by
  have more : stored ++ chunk ≠ [] := List.append_ne_nil_of_right_ne_nil _ some
  rw [placed, placed, if_neg more]
  by_cases first : stored = []
  · rw [if_pos first, first, List.nil_append]
    rfl
  · rw [if_neg first, WriteHistories.put_append]

theorem writeAllAt_spec {pos : U64} {buf : List Byte} {s : Writing} (i : Nat)
    (here : WritingAt f pos buf s) :
    (writeAllAtRound s (answers i)).Ensures
      (Advances Answer.Retries answers (fun _ => WritingAt f pos buf) (fun s => s.buf.length) i s)
      (StoreTold f pos.toNat buf) := by
  by_cases done : s.buf = []
  · rw [writeAllAtRound, if_pos done]
    exact storeTold_full here done
  by_cases behind : s.pos.toInt < 0
  · rw [writeAllAtRound_behind done behind]
    exact storeTold_failed here done (by decide)
  cases answer : answers i with
  | fails errno =>
    rw [writeAllAtRound_fails done behind]
    exact ensures_fails answer (fun _ => here)
      (storeTold_failed here done (failure_negative errno (by decide)))
  | transfers most =>
    by_cases room : s.pos.toNat < maxBytes
    · rw [writeAllAtRound_transfers done room]
      have length := length_piece s.pos.toNat s.buf most
      have some : 0 < s.buf.length := List.length_pos_iff.mpr done
      have useful : 0 < maxCount := by decide
      have positive : 0 < (piece s.pos.toNat s.buf most).length := by omega
      refine ⟨⟨?_, ?_, ?_⟩, ?_, fun _ => ?_⟩
      · have small : (piece s.pos.toNat s.buf most).length ≤ maxBytes - s.pos.toNat := by omega
        have position := here.position
        rw [maxBytes] at room small
        rw [BitVec.toNat_add, BitVec.toNat_ofNat, List.length_append, ← Nat.add_assoc, ← position]
        omega
      · change (s.stored ++ piece s.pos.toNat s.buf most) ++ s.buf.drop _ = buf
        nth_rewrite 1 [piece_eq]
        rw [List.append_assoc, List.take_append_drop]
        exact here.whole
      · have moved := @placed_append f.bytes pos.toNat s.stored _ (List.length_pos_iff.mp positive)
        rw [← here.file, ← here.position] at moved
        exact moved
      · exact (List.length_drop).trans_le (Nat.sub_le _ _)
      · change (s.buf.drop _).length < s.buf.length
        rw [List.length_drop]
        omega
    · rw [writeAllAtRound_full done behind room]
      exact storeTold_failed here done (by decide)

theorem writeAllAt_exact (fair : Fair Answer.Retries answers) (pos : U64) (buf : List Byte) :
    ExactWrite f pos.toNat buf (writeAllAt f answers pos buf) := by
  have start : WritingAt f pos buf ⟨pos, buf, [], f⟩ := ⟨rfl, rfl, rfl⟩
  exact loop_total fair (fun i _ => writeAllAt_spec i) start

end Writes

/-! ## All transfers -/

/-- A range inside the file never leads to a call at its end. -/
theorem inside_not_endAsked {f : File} {answers : Nat → Answer} {pos : U64} {size : Nat}
    (inside : pos.toNat + size ≤ f.bytes.length) : ¬EndAsked f answers pos size := by
  rintro ⟨_, past, _⟩
  omega

/-- `read_exact` and `write_all_at` do what they should, and `read_exact_at` does unless it
asks for bytes at the end of the file. -/
theorem exact_transfers_iff (f : File) (answers : Nat → Answer)
    (fair : Fair Answer.Retries answers) :
    (∀ position size, ExactRead f position size (readExact f answers position size)) ∧
      (∀ pos size, ExactRead f pos.toNat size (readExactAt f answers pos size) ↔
        ¬EndAsked f answers pos size) ∧
      ∀ pos buf, ExactWrite f pos.toNat buf (writeAllAt f answers pos buf) :=
  ⟨readExact_exact fair, readExactAt_exact_iff fair, writeAllAt_exact fair⟩

theorem three_fit : ([1, 2, 3] : List Byte).length ≤ maxBytes := by decide

def threeBytes : File := ⟨[1, 2, 3], three_fit⟩

theorem exact_transfers_three_bytes :
    ExactRead threeBytes 0 4 (readExact threeBytes (fun _ => .transfers 0) 0 4) ∧
      ExactRead threeBytes 1 2 (readExactAt threeBytes (fun _ => .transfers 0) 1 2) := by
  have fair : Fair Answer.Retries (fun _ => .transfers 0) := fun i => ⟨i, Nat.le_refl i, not_false⟩
  obtain ⟨reads, readsAt, _⟩ := exact_transfers_iff threeBytes (fun _ => .transfers 0) fair
  exact ⟨reads 0 4, (readsAt 1 2).mpr (inside_not_endAsked (by decide))⟩

/-- Four bytes of a file of three: after the three come only zeros, and the call that would
report the end of the file is made again and again. `read_exact` reports it. -/
theorem four_of_three_bytes :
    ¬ExactRead threeBytes 0 4 (readExactAt threeBytes (fun _ => .transfers 3) 0 4) ∧
      (∀ fuel, readExactAt threeBytes (fun _ => .transfers 3) 0 4 fuel = none) ∧
      (readExact threeBytes (fun _ => .transfers 3) 0 4 2).map ReadResult.value =
        some (failure 32 EINVAL) := by
  have spins : ∀ fuel, readExactAt threeBytes (fun _ => .transfers 3) 0 4 fuel = none :=
    readExactAt_spins (by decide) (by decide) (fun _ => not_false)
  refine ⟨?_, spins, by decide⟩
  rintro ⟨r, ends, _⟩
  obtain ⟨fuel, ended⟩ := ends_some ends
  rw [spins] at ended
  cases ended

end ExactTransfers
