import Mathlib.Data.BitVec
import Mathlib.Data.List.Range
import Redstone.MachineWords

/-!
# Writing to standard output in chunks

`stdout_file_descriptor::write` loads through a buffer of 8192 bytes until it has loaded
what it was asked for. Each chunk is as long as the buffer or the whole request, never the
rest of it. The debug lines that the function prints besides are left out; the loop is cut
off by a fuel.
-/

namespace StdoutWrites

open MachineWords

universe u
variable {σ : Type u}

def bufferSize : Nat := 8192

/-- A callback with the state it captures; it fills the span it is given. -/
abbrev Load (σ : Type u) := σ → List Byte → CInt × List Byte × σ

/-- The callback's state, its calls so far with the sizes requested and the results, and
the bytes passed to `fwrite`. -/
structure Progress (σ : Type u) where
  state : σ
  calls : List (Nat × CInt)
  emitted : List Byte

/-- Without fuel left there is no result yet. -/
def writeLoop (load : Load σ) (bytes : U64) :
    (fuel : Nat) → (buf : List Byte) → (done : U64) → Progress σ → Option I64 × Progress σ
  | 0, _, _, p => (none, p)
  | fuel + 1, buf, done, p =>
    if done < bytes then
      let tmp := if bytes.toNat < buf.length then buf.take bytes.toNat else buf
      let (res, filled, state) := load p.state tmp
      let calls := p.calls ++ [(tmp.length, res)]
      if res.toInt < 0 then (some (res.signExtend 64), ⟨state, calls, p.emitted⟩)
      else
        writeLoop load bytes fuel (filled ++ buf.drop tmp.length)
          (done + BitVec.ofNat 64 tmp.length) ⟨state, calls, p.emitted ++ filled⟩
    else (some done, p)

def write (load : Load σ) (bytes : U64) (fuel : Nat) (state : σ) : Option I64 × Progress σ :=
  writeLoop load bytes fuel (List.replicate bufferSize 0) 0 ⟨state, [], []⟩

/-! ## What the callback delivers -/

/-- The `n` bytes of the source from a position on. -/
def piece (source : Nat → Byte) (at' n : Nat) : List Byte :=
  (List.range n).map fun i => source (at' + i)

/-- The callback fills each fragment, and where it succeeds with the next piece. -/
structure Delivers (load : Load σ) (source : Nat → Byte) (position : σ → Nat) : Prop where
  length : ∀ s fragment, (load s fragment).2.1.length = fragment.length
  pieces : ∀ s fragment, 0 ≤ (load s fragment).1.toInt →
    (load s fragment).2.1 = piece source (position s) fragment.length ∧
      position (load s fragment).2.2 = position s + fragment.length

def Succeeds (load : Load σ) : Prop := ∀ s fragment, 0 ≤ (load s fragment).1.toInt

/-- The sizes of all requests together. -/
def requested : List (Nat × CInt) → Nat
  | [] => 0
  | call :: rest => call.1 + requested rest

/-- The write returns `bytes`, has requested fragments of so many bytes together and has
emitted the first so many bytes of the source. -/
def WritesExactly (load : Load σ) (source : Nat → Byte) (s : σ) (bytes : U64) : Prop :=
  ∃ fuel value after, write load bytes fuel s = (some value, after) ∧
    value.toInt = bytes.toNat ∧ requested after.calls = bytes.toNat ∧
      after.emitted = piece source 0 bytes.toNat

theorem piece_add (source : Nat → Byte) (at' a b : Nat) :
    piece source at' (a + b) = piece source at' a ++ piece source (at' + a) b := by
  simp only [piece, List.range_add, List.map_append, List.map_map, Function.comp_def,
    Nat.add_assoc]

theorem requested_snoc (calls : List (Nat × CInt)) (call : Nat × CInt) :
    requested (calls ++ [call]) = requested calls + call.1 := by
  induction calls with
  | nil => exact Nat.add_comm call.1 0
  | cons first rest ih => rw [List.cons_append, requested, requested, ih, Nat.add_assoc]

/-! ## One chunk -/

/-- The size of every chunk. -/
def chunk (bytes : U64) : Nat := min bytes.toNat bufferSize

/-- A round of the loop loads one chunk. -/
theorem writeLoop_round (load : Load σ) {bytes done : U64} {buf : List Byte} (fuel : Nat)
    (p : Progress σ) (size : buf.length = bufferSize) (more : done < bytes) :
    ∃ tmp : List Byte, tmp.length = chunk bytes ∧
      writeLoop load bytes (fuel + 1) buf done p =
        if (load p.state tmp).1.toInt < 0 then
          (some ((load p.state tmp).1.signExtend 64), ⟨(load p.state tmp).2.2,
            p.calls ++ [(chunk bytes, (load p.state tmp).1)], p.emitted⟩)
        else writeLoop load bytes fuel ((load p.state tmp).2.1 ++ buf.drop (chunk bytes))
          (done + BitVec.ofNat 64 (chunk bytes)) ⟨(load p.state tmp).2.2,
            p.calls ++ [(chunk bytes, (load p.state tmp).1)],
            p.emitted ++ (load p.state tmp).2.1⟩ := by
  have length : (if bytes.toNat < buf.length then buf.take bytes.toNat else buf).length =
      chunk bytes := by
    rw [chunk, size]
    split
    · rw [List.length_take, size]
    · rw [size]
      omega
  refine ⟨_, length, ?_⟩
  rw [writeLoop, if_pos more]
  simp only [length]

theorem length_refilled {load : Load σ} {source : Nat → Byte} {position : σ → Nat}
    (delivers : Delivers load source position) {bytes : U64} {buf tmp : List Byte} (s : σ)
    (size : buf.length = bufferSize) (length : tmp.length = chunk bytes) :
    ((load s tmp).2.1 ++ buf.drop (chunk bytes)).length = bufferSize := by
  rw [List.length_append, delivers.length, length, List.length_drop, size, chunk]
  omega

/-! ## Every run -/

/-- What holds before each round: the calls so far succeeded, and the bytes emitted are
those before the callback's position. -/
structure Sound (source : Nat → Byte) (position : σ → Nat) (p : Progress σ) : Prop where
  succeeded : ∀ call ∈ p.calls, 0 ≤ call.2.toInt
  emitted : p.emitted = piece source 0 (position p.state)

/-- A call failed, its error is returned and what was emitted before is left. -/
def Failed (source : Nat → Byte) (value : Option I64) (after : Progress σ) : Prop :=
  ∃ calls size res, after.calls = calls ++ [(size, res)] ∧
    (∀ call ∈ calls, 0 ≤ call.2.toInt) ∧ res.toInt < 0 ∧ value = some (res.signExtend 64) ∧
      ∃ k, after.emitted = piece source 0 k

theorem sound_next {load : Load σ} {source : Nat → Byte} {position : σ → Nat}
    (delivers : Delivers load source position) {p : Progress σ} {tmp : List Byte} {n : Nat}
    (sound : Sound source position p) (success : 0 ≤ (load p.state tmp).1.toInt) :
    Sound source position ⟨(load p.state tmp).2.2, p.calls ++ [(n, (load p.state tmp).1)],
      p.emitted ++ (load p.state tmp).2.1⟩ := by
  obtain ⟨filled, moved⟩ := delivers.pieces p.state tmp success
  refine ⟨?_, ?_⟩
  · exact List.forall_mem_append.mpr ⟨sound.succeeded, List.forall_mem_singleton.mpr success⟩
  · rw [sound.emitted, filled, moved, piece_add, Nat.zero_add]

/-- A run ends with the error of a failed call, or all calls succeed. Chunks of the size of
the buffer then end at a multiple of it. -/
theorem writeLoop_sound {load : Load σ} {source : Nat → Byte} {position : σ → Nat}
    (delivers : Delivers load source position) {bytes : U64} {fuel : Nat} :
    ∀ {buf : List Byte} {done : U64} {p : Progress σ} {value : Option I64} {after : Progress σ},
      buf.length = bufferSize → Sound source position p →
      writeLoop load bytes fuel buf done p = (value, after) →
      Failed source value after ∨ (Sound source position after ∧
        (chunk bytes = bufferSize → bufferSize ∣ done.toNat →
          ∀ v ∈ value, bufferSize ∣ v.toNat)) := by
  induction fuel with
  | zero =>
    intro buf done p value after size sound ended
    obtain ⟨rfl, rfl⟩ := Prod.mk.inj ended
    exact Or.inr ⟨sound, fun _ _ => nofun⟩
  | succ fuel ih =>
    intro buf done p value after size sound ended
    by_cases more : done < bytes
    · obtain ⟨tmp, length, round⟩ := writeLoop_round load fuel p size more
      rw [round] at ended
      by_cases fails : (load p.state tmp).1.toInt < 0
      · rw [if_pos fails] at ended
        obtain ⟨rfl, rfl⟩ := Prod.mk.inj ended
        exact Or.inl ⟨p.calls, _, _, rfl, sound.succeeded, fails, rfl, _, sound.emitted⟩
      · rw [if_neg fails] at ended
        refine (ih (length_refilled delivers p.state size length)
          (sound_next delivers sound (Int.not_lt.mp fails)) ended).imp_right ?_
        rintro ⟨final, multiple⟩
        refine ⟨final, ?_⟩
        intro full start
        refine multiple full ?_
        have whole : bufferSize ∣ 2 ^ 64 := ⟨2 ^ 51, rfl⟩
        rw [BitVec.toNat_add, BitVec.toNat_ofNat, full, Nat.dvd_mod_iff whole]
        exact Nat.dvd_add start ((Nat.dvd_mod_iff whole).mpr (Nat.dvd_refl _))
    · rw [writeLoop, if_neg more] at ended
      obtain ⟨rfl, rfl⟩ := Prod.mk.inj ended
      refine Or.inr ⟨sound, ?_⟩
      rintro full start v same
      obtain rfl := Option.some.inj same
      exact start

/-- When the chunks come out even, the loop ends where it should. -/
theorem writeLoop_finishes {load : Load σ} {source : Nat → Byte} {position : σ → Nat}
    (delivers : Delivers load source position) (succeeds : Succeeds load) {bytes : U64}
    {left : Nat} : ∀ {buf : List Byte} {p : Progress σ}, buf.length = bufferSize →
      left * chunk bytes ≤ bytes.toNat → 0 < chunk bytes ∨ left = 0 →
      Sound source position p → position p.state = bytes.toNat - left * chunk bytes →
      requested p.calls = bytes.toNat - left * chunk bytes →
      ∃ after, writeLoop load bytes (left + 1) buf
          (BitVec.ofNat 64 (bytes.toNat - left * chunk bytes)) p = (some bytes, after) ∧
        requested after.calls = bytes.toNat ∧ after.emitted = piece source 0 bytes.toNat := by
  induction left with
  | zero =>
    intro buf p size fits some sound reached count
    rw [Nat.zero_mul, Nat.sub_zero] at reached count ⊢
    have stop : ¬BitVec.ofNat 64 bytes.toNat < bytes := by
      rw [BitVec.ofNat_toNat, BitVec.setWidth_eq]
      exact BitVec.lt_irrefl bytes
    refine ⟨p, ?_, count, reached ▸ sound.emitted⟩
    rw [writeLoop, if_neg stop, BitVec.ofNat_toNat, BitVec.setWidth_eq]
  | succ left ih =>
    intro buf p size fits some sound reached count
    have positive : 0 < chunk bytes := some.resolve_right (Nat.succ_ne_zero left)
    have next : bytes.toNat - (left + 1) * chunk bytes + chunk bytes =
        bytes.toNat - left * chunk bytes := by
      rw [Nat.succ_mul] at fits ⊢
      omega
    have small := bytes.isLt
    have more : BitVec.ofNat 64 (bytes.toNat - (left + 1) * chunk bytes) < bytes := by
      rw [BitVec.lt_def, BitVec.toNat_ofNat, Nat.mod_eq_of_lt (by omega)]
      rw [Nat.succ_mul] at fits ⊢
      omega
    obtain ⟨tmp, length, round⟩ := writeLoop_round load (left + 1) p size more
    have success := succeeds p.state tmp
    rw [round, if_neg (Int.not_lt.mpr success), ← BitVec.ofNat_add, next]
    refine ih (length_refilled delivers p.state size length) ?_ (Or.inl positive)
      (sound_next delivers sound success) ?_ ?_
    · rw [Nat.succ_mul] at fits
      omega
    · rw [(delivers.pieces p.state tmp success).2, reached, length, next]
    · rw [requested_snoc, count, next]

/-! ## Which writes are exact -/

/-- The request fits the buffer, or is a multiple of it that fits the result. -/
def ComesOutEven (bytes : U64) : Prop :=
  bytes.toNat ≤ bufferSize ∨ bufferSize ∣ bytes.toNat ∧ bytes.toNat < 2 ^ 63

instance (bytes : U64) : Decidable (ComesOutEven bytes) :=
  inferInstanceAs (Decidable (_ ∨ _ ∧ _))

theorem sound_start {source : Nat → Byte} {position : σ → Nat} {s : σ} (start : position s = 0) :
    Sound source position ⟨s, [], []⟩ := by
  refine ⟨fun call none => absurd none List.not_mem_nil, ?_⟩
  rw [start]
  rfl

theorem write_sound {load : Load σ} {source : Nat → Byte} {position : σ → Nat}
    (delivers : Delivers load source position) {s : σ} (start : position s = 0) {bytes : U64}
    {fuel : Nat} {value : Option I64} {after : Progress σ}
    (ended : write load bytes fuel s = (value, after)) :
    Failed source value after ∨ ((∀ call ∈ after.calls, 0 ≤ call.2.toInt) ∧
      (chunk bytes = bufferSize → ∀ v ∈ value, bufferSize ∣ v.toNat)) := by
  refine (writeLoop_sound delivers List.length_replicate (sound_start start) ended).imp_right ?_
  rintro ⟨final, multiple⟩
  exact ⟨final.succeeded, fun full => multiple full (Nat.dvd_zero _)⟩

/-- The error of a failed call is the result. -/
theorem write_failed {load : Load σ} {source : Nat → Byte} {position : σ → Nat}
    (delivers : Delivers load source position) {s : σ} (start : position s = 0) {bytes : U64}
    {fuel : Nat} {value : Option I64} {after : Progress σ}
    (ended : write load bytes fuel s = (value, after)) {call : Nat × CInt}
    (made : call ∈ after.calls) (fails : call.2.toInt < 0) :
    value = some (call.2.signExtend 64) ∧ ∃ k, after.emitted = piece source 0 k := by
  rcases write_sound delivers start ended with failed | ⟨succeeded, -⟩
  · obtain ⟨calls, size, res, all, before, -, returned, prefix'⟩ := failed
    rw [all] at made
    rcases List.mem_append.mp made with early | last
    · exact absurd fails (Int.not_lt.mpr (before call early))
    · obtain rfl := List.mem_singleton.mp last
      exact ⟨returned, prefix'⟩
  · exact absurd fails (Int.not_lt.mpr (succeeded call made))

theorem even_of_writesExactly {load : Load σ} {source : Nat → Byte} {position : σ → Nat}
    (delivers : Delivers load source position) {s : σ} (start : position s = 0) {bytes : U64}
    (exact : WritesExactly load source s bytes) : ComesOutEven bytes := by
  obtain ⟨fuel, value, after, ended, returned, -, -⟩ := exact
  have size := value.isLt
  have signed := BitVec.toInt_eq_toNat_cond value
  -- the result is not negative, so it is not an error
  have same : value.toNat = bytes.toNat := by
    split at signed <;> omega
  have room : bytes.toNat < 2 ^ 63 := by
    split at signed <;> omega
  rcases Nat.lt_or_ge bufferSize bytes.toNat with long | short
  · refine Or.inr ⟨?_, room⟩
    rcases write_sound delivers start ended with failed | ⟨-, multiple⟩
    · obtain ⟨calls, size', res, -, -, fails, error, -⟩ := failed
      have negative : value.toInt < 0 := by
        rw [Option.some.inj error, BitVec.toInt_signExtend_of_le (by decide)]
        exact fails
      omega
    · rw [← same]
      exact multiple (Nat.min_eq_right (Nat.le_of_lt long)) value rfl
  · exact Or.inl short

/-- So many chunks make up an even request. -/
theorem chunks_of_even {bytes : U64} (even : ComesOutEven bytes) :
    ∃ left, left * chunk bytes = bytes.toNat ∧ (0 < chunk bytes ∨ left = 0) := by
  have positive : 0 < bufferSize := by decide
  rcases Nat.eq_zero_or_pos bytes.toNat with none | some
  · exact ⟨0, by rw [Nat.zero_mul, none], Or.inr rfl⟩
  · have some' : 0 < chunk bytes := Nat.lt_min.mpr ⟨some, positive⟩
    rcases even with short | ⟨multiple, -⟩
    · exact ⟨1, by rw [Nat.one_mul, chunk, Nat.min_eq_left short], Or.inl some'⟩
    · have full : chunk bytes = bufferSize :=
        Nat.min_eq_right (Nat.le_of_dvd some multiple)
      exact ⟨bytes.toNat / bufferSize, by rw [full, Nat.div_mul_cancel multiple], Or.inl some'⟩

theorem writesExactly_of_even {load : Load σ} {source : Nat → Byte} {position : σ → Nat}
    (delivers : Delivers load source position) (succeeds : Succeeds load) {s : σ}
    (start : position s = 0) {bytes : U64} (even : ComesOutEven bytes) :
    WritesExactly load source s bytes := by
  obtain ⟨left, whole, some⟩ := chunks_of_even even
  have none : bytes.toNat - left * chunk bytes = 0 := by omega
  obtain ⟨after, ended, count, emitted⟩ := writeLoop_finishes delivers succeeds
    (List.length_replicate (n := bufferSize) (a := 0)) (Nat.le_of_eq whole) some
    (sound_start start) (start.trans none.symm) none.symm
  rw [none] at ended
  refine ⟨left + 1, bytes, after, ended, ?_, count, emitted⟩
  have room : 2 * bytes.toNat < 2 ^ 64 := by
    have small : bufferSize < 2 ^ 63 := by decide
    rcases even with short | ⟨-, room⟩ <;> omega
  exact BitVec.toInt_eq_toNat_of_lt room

/-- For every callback that delivers a source from its start: if it always succeeds, a
write is exact precisely if the request fits the buffer or is a multiple of its size that
fits the result. If a call fails, its error is returned after a prefix of the source. -/
theorem chunked_write_exact_iff {load : Load σ} {source : Nat → Byte} {position : σ → Nat}
    (delivers : Delivers load source position) {s : σ} (start : position s = 0) (bytes : U64) :
    (Succeeds load → (WritesExactly load source s bytes ↔ ComesOutEven bytes)) ∧
      ∀ fuel, ∀ call ∈ (write load bytes fuel s).2.calls, call.2.toInt < 0 →
        (write load bytes fuel s).1 = some (call.2.signExtend 64) ∧
          ∃ k, (write load bytes fuel s).2.emitted = piece source 0 k := by
  refine ⟨fun succeeds => ⟨even_of_writesExactly delivers start,
    writesExactly_of_even delivers succeeds start⟩, ?_⟩
  intro fuel call made fails
  exact write_failed delivers start rfl made fails

/-- A callback that counts its bytes up. -/
def counting : Load Nat := fun position fragment =>
  (0, piece (BitVec.ofNat 8) position fragment.length, position + fragment.length)

theorem delivers_counting : Delivers counting (BitVec.ofNat 8) id := by
  refine ⟨?_, fun _ _ _ => ⟨rfl, rfl⟩⟩
  intro s fragment
  rw [counting, piece, List.length_map, List.length_range]

theorem succeeds_counting : Succeeds counting := fun _ _ => Int.le_refl 0

/-- Two full buffers. -/
theorem chunked_write_exact_buffers : WritesExactly counting (BitVec.ofNat 8) 0 16384 :=
  ((chunked_write_exact_iff delivers_counting rfl 16384).1 succeeds_counting).mpr
    (Or.inr ⟨⟨2, rfl⟩, by decide⟩)

/-- One byte more than the buffer holds is not written exactly. -/
theorem one_more_overshoots :
    Delivers counting (BitVec.ofNat 8) id ∧ Succeeds counting ∧
      ¬WritesExactly counting (BitVec.ofNat 8) 0 8193 := by
  refine ⟨delivers_counting, succeeds_counting, ?_⟩
  intro exact
  exact absurd (even_of_writesExactly delivers_counting rfl exact) (by decide)

end StdoutWrites
