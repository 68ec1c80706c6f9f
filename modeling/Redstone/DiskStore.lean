import Mathlib.Algebra.Group.Nat.Defs
import Redstone.MachineWords
import Redstone.SparseArray

/-!
# The simulated disk file

`disk_file` is a vector of bytes with positional reads and writes. A vector has at most
`max_size()` bytes, and `resize` throws before it changes anything when it is asked for
more; below that, allocation is taken to succeed. A span is an object in memory and so
has fewer than 2^63 bytes. Both bounds are fields, which is why the sum of an accepted
position and a length cannot wrap.
-/

namespace DiskStore

open MachineWords SparseArray

/-- `std::span<const std::byte>`. -/
structure Span where
  bytes : List Byte
  fits : bytes.length < 2 ^ 63
  deriving DecidableEq

def Span.sizeBytes (buf : Span) : U64 := BitVec.ofNat 64 buf.bytes.length

theorem Span.sizeBytes_toNat (buf : Span) : buf.sizeBytes.toNat = buf.bytes.length := by
  have := buf.fits
  rw [sizeBytes, BitVec.toNat_ofNat, Nat.mod_eq_of_lt (by omega)]

theorem Span.sizeBytes_toInt (buf : Span) : buf.sizeBytes.toInt = buf.bytes.length := by
  have := buf.fits
  rw [BitVec.toInt_eq_toNat_cond, buf.sizeBytes_toNat, if_pos (by omega)]

/-- `vector::max_size()` of a vector of bytes. -/
def vectorMaxSize : U64 := 0x7fffffffffffffff

@[ext]
structure DiskFile where
  buffer : List Byte
  fits : buffer.length ≤ vectorMaxSize.toNat
  deriving DecidableEq

def DiskFile.empty : DiskFile := ⟨[], by decide⟩

/-- What leaves a call that does not return. -/
inductive Thrown where
  | lengthError
  deriving DecidableEq

/-- `std::numeric_limits<int64_t>::max()` as an unsigned word. -/
def maxFileSize : U64 := 0x7fffffffffffffff

theorem maxFileSize_toNat : maxFileSize.toNat = 2 ^ 63 - 1 := rfl

/-- `pos + buf.size_bytes()` in 64-bit arithmetic. -/
def newSize (pos : U64) (buf : Span) : U64 := pos + buf.sizeBytes

/-- A buffer is short enough for a sum with a small position not to wrap. -/
theorem add_sizeBytes_toNat {pos : U64} (small : pos.toNat < 2 ^ 63) (buf : Span) :
    (pos + buf.sizeBytes).toNat = pos.toNat + buf.bytes.length := by
  have := buf.fits
  rw [BitVec.toNat_add, buf.sizeBytes_toNat, Nat.mod_eq_of_lt (by omega)]

theorem newSize_toNat {pos : U64} {buf : Span} (accepted : ¬maxFileSize ≤ pos) :
    (newSize pos buf).toNat = pos.toNat + buf.bytes.length := by
  have below : pos.toNat < 2 ^ 63 - 1 := by
    rw [← maxFileSize_toNat]
    exact BitVec.not_le.mp accepted
  exact add_sizeBytes_toNat (by omega) buf

theorem length_written {pos : U64} {buf : Span} (accepted : ¬maxFileSize ≤ pos)
    (l : List Byte) :
    (copyAt (grow 0 (newSize pos buf).toNat l) pos.toNat buf.bytes).length =
      max l.length (newSize pos buf).toNat := by
  have covered : (newSize pos buf).toNat = _ := newSize_toNat accepted
  rw [length_copyAt (by rw [length_grow]; omega), length_grow]

def DiskFile.write (d : DiskFile) (pos : U64) (buf : Span) : Except Thrown I64 × DiskFile :=
  -- `pos < 0` is never true of an unsigned position
  if refused : maxFileSize ≤ pos then (.ok (failure 64 EINVAL), d)
  -- `resize` is called, as no buffer is this long, and throws
  else if tooLong : vectorMaxSize < newSize pos buf then (.error .lengthError, d)
  else (.ok buf.sizeBytes,
    { buffer := copyAt (grow 0 (newSize pos buf).toNat d.buffer) pos.toNat buf.bytes
      fits := by
        rw [length_written refused]
        exact Nat.max_le.mpr ⟨d.fits, BitVec.not_lt.mp tooLong⟩ })

def DiskFile.getSize (d : DiskFile) : U64 := BitVec.ofNat 64 d.buffer.length

/-- Read into a buffer of `n` bytes: the count and the bytes copied to its front. -/
def DiskFile.read (d : DiskFile) (pos : U64) (n : Nat) : I64 × List Byte :=
  if d.getSize ≤ pos then (failure 64 EINVAL, [])
  else
    let numElementsToCopy := min n (d.buffer.length - pos.toNat)
    (BitVec.ofNat 64 numElementsToCopy, (d.buffer.drop pos.toNat).take numElementsToCopy)

/-! ## Which writes are stored -/

/-- The write starts below the size limit, and the vector can be long enough. -/
def Stores (pos : U64) (buf : Span) : Prop :=
  pos < maxFileSize ∧ pos.toNat + buf.bytes.length ≤ vectorMaxSize.toNat

/-- The write starts below the size limit, but no vector is long enough. -/
def Throws (pos : U64) (buf : Span) : Prop :=
  pos < maxFileSize ∧ vectorMaxSize.toNat < pos.toNat + buf.bytes.length

instance (pos : U64) (buf : Span) : Decidable (Stores pos buf) :=
  inferInstanceAs (Decidable (_ ∧ _))

instance (pos : U64) (buf : Span) : Decidable (Throws pos buf) :=
  inferInstanceAs (Decidable (_ ∧ _))

theorem stores_or_throws {pos : U64} (buf : Span) (accepted : pos < maxFileSize) :
    Stores pos buf ∨ Throws pos buf :=
  (Nat.lt_or_ge _ _).symm.imp (And.intro accepted) (And.intro accepted)

theorem Stores.not_throws {pos : U64} {buf : Span} (stores : Stores pos buf) :
    ¬Throws pos buf := fun throws => Nat.not_lt.mpr stores.2 throws.2

/-- An empty write that is accepted has room. -/
theorem stores_of_empty {pos : U64} {buf : Span} (accepted : pos < maxFileSize)
    (empty : buf.bytes = []) : Stores pos buf := by
  refine ⟨accepted, ?_⟩
  rw [empty]
  exact Nat.le_of_lt accepted

namespace DiskFile

theorem getSize_toNat (d : DiskFile) : d.getSize.toNat = d.buffer.length := by
  have fits : d.buffer.length ≤ 2 ^ 63 - 1 := d.fits
  rw [getSize, BitVec.toNat_ofNat, Nat.mod_eq_of_lt (by omega)]

theorem getSize_le {d : DiskFile} {pos : U64} : d.getSize ≤ pos ↔ d.buffer.length ≤ pos.toNat := by
  rw [BitVec.le_def, getSize_toNat]

theorem read_past {d : DiskFile} {pos : U64} (n : Nat) (past : d.buffer.length ≤ pos.toNat) :
    d.read pos n = (failure 64 EINVAL, []) := by
  rw [read, if_pos (getSize_le.mpr past)]

theorem read_inside {d : DiskFile} {pos : U64} (n : Nat) (inside : pos.toNat < d.buffer.length) :
    d.read pos n = (BitVec.ofNat 64 (min n (d.buffer.length - pos.toNat)),
      (d.buffer.drop pos.toNat).take (min n (d.buffer.length - pos.toNat))) := by
  rw [read, if_neg (fun past => Nat.not_le.mpr inside (getSize_le.mp past))]

theorem write_refused {d : DiskFile} {pos : U64} {buf : Span} (refused : maxFileSize ≤ pos) :
    d.write pos buf = (.ok (failure 64 EINVAL), d) := by
  rw [write, dif_pos refused]

theorem tooLong_iff {pos : U64} {buf : Span} (accepted : pos < maxFileSize) :
    vectorMaxSize < newSize pos buf ↔ Throws pos buf := by
  rw [BitVec.lt_def, newSize_toNat (BitVec.not_le.mpr accepted), Throws, and_iff_right accepted]

theorem write_throws {d : DiskFile} {pos : U64} {buf : Span} (throws : Throws pos buf) :
    d.write pos buf = (.error .lengthError, d) := by
  rw [write, dif_neg (BitVec.not_le.mpr throws.1), dif_pos ((tooLong_iff throws.1).mpr throws)]

theorem write_value {d : DiskFile} {pos : U64} {buf : Span} (stores : Stores pos buf) :
    (d.write pos buf).1 = .ok buf.sizeBytes := by
  have short := mt (tooLong_iff stores.1).mp stores.not_throws
  rw [write, dif_neg (BitVec.not_le.mpr stores.1), dif_neg short]

theorem write_buffer {d : DiskFile} {pos : U64} {buf : Span} (stores : Stores pos buf) :
    (d.write pos buf).2.buffer = put 0 d.buffer pos.toNat buf.bytes := by
  have inRange := BitVec.not_le.mpr stores.1
  have short := mt (tooLong_iff stores.1).mp stores.not_throws
  rw [write, dif_neg inRange, dif_neg short, put, ← newSize_toNat inRange]

theorem write_length {d : DiskFile} {pos : U64} {buf : Span} (stores : Stores pos buf) :
    (d.write pos buf).2.buffer.length =
      max d.buffer.length (pos.toNat + buf.bytes.length) := by
  rw [write_buffer stores, length_put]

/-- A write that is refused or throws leaves the file. -/
theorem write_unchanged {d : DiskFile} {pos : U64} {buf : Span} (unstored : ¬Stores pos buf) :
    (d.write pos buf).2 = d := by
  by_cases accepted : pos < maxFileSize
  · rw [write_throws ((stores_or_throws buf accepted).resolve_left unstored)]
  · rw [write_refused (BitVec.not_lt.mp accepted)]

/-- Whether a write throws does not depend on the file. -/
theorem write_error_iff {d : DiskFile} {pos : U64} {buf : Span} :
    (d.write pos buf).1 = .error .lengthError ↔ Throws pos buf := by
  refine ⟨fun thrown => ?_, fun throws => by rw [write_throws throws]⟩
  by_cases accepted : pos < maxFileSize
  · refine (stores_or_throws buf accepted).resolve_left fun stores => ?_
    rw [write_value stores] at thrown
    cases thrown
  · rw [write_refused (BitVec.not_lt.mp accepted)] at thrown
    cases thrown

/-- A byte already in the file survives every write whose range misses it. -/
theorem write_keeps {d : DiskFile} {pos : U64} {buf : Span} {i : Nat} {b : Byte}
    (old : d.buffer[i]? = some b)
    (outside : ¬(pos.toNat ≤ i ∧ i < pos.toNat + buf.bytes.length)) :
    (d.write pos buf).2.buffer[i]? = some b := by
  by_cases stores : Stores pos buf
  · rw [write_buffer stores]
    exact getElem?_put_outside 0 old outside
  · rw [write_unchanged stores]
    exact old

theorem write_stores {d : DiskFile} {pos : U64} {buf : Span} {j : Nat}
    (stores : Stores pos buf) (hj : j < buf.bytes.length) :
    (d.write pos buf).2.buffer[pos.toNat + j]? = buf.bytes[j]? := by
  rw [write_buffer stores]
  exact getElem?_put_inside 0 d.buffer hj

end DiskFile

end DiskStore
