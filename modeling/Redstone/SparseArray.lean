import Mathlib.Data.List.Basic
import Mathlib.Data.List.GetD

/-!
# Growable arrays with zero-filled gaps

Positional writes into a list that first grow it to cover the written range.
`grow` fills the gap with a given element, `copyAt` overwrites a covered range,
and `put` does both; every fact about `put` follows from its length and from the
element it leaves at each index.
-/

namespace SparseArray

universe u
variable {α : Type u}

/-- Exactly `n` elements: the first `n` of the list, padded with `z`. -/
def resize (z : α) (n : Nat) (l : List α) : List α :=
  l.take n ++ List.replicate (n - l.length) z

def grow (z : α) (n : Nat) (l : List α) : List α :=
  if l.length < n then resize z n l else l

def copyAt (l : List α) (pos : Nat) (buf : List α) : List α :=
  l.take pos ++ buf ++ l.drop (pos + buf.length)

def put (z : α) (l : List α) (pos : Nat) (buf : List α) : List α :=
  copyAt (grow z (pos + buf.length) l) pos buf

@[simp] theorem length_resize (z : α) (n : Nat) (l : List α) : (resize z n l).length = n := by
  simp only [resize, List.length_append, List.length_take, List.length_replicate]
  omega

theorem getElem?_resize (z : α) {n i : Nat} (l : List α) (hi : i < n) :
    (resize z n l)[i]? = some (l.getD i z) := by
  by_cases old : i < l.length
  · have inTake : i < (l.take n).length := by rw [List.length_take]; omega
    rw [resize, List.getElem?_append_left inTake, List.getElem?_take_of_lt hi,
      List.getElem?_eq_getElem old, List.getD_eq_getElem l z old]
  · have pastTake : (l.take n).length ≤ i := by rw [List.length_take]; omega
    rw [resize, List.getElem?_append_right pastTake, List.getElem?_replicate,
      if_pos (by rw [List.length_take]; omega), List.getD_eq_default l z (by omega)]

@[simp] theorem length_grow (z : α) (n : Nat) (l : List α) :
    (grow z n l).length = max l.length n := by
  by_cases short : l.length < n
  · simp only [grow, if_pos short, length_resize]
    omega
  · simp only [grow, if_neg short]
    omega

theorem getElem?_grow (z : α) {n i : Nat} (l : List α) (hi : i < max l.length n) :
    (grow z n l)[i]? = some (l.getD i z) := by
  by_cases short : l.length < n
  · rw [grow, if_pos short, getElem?_resize z l (by omega)]
  · have old : i < l.length := by omega
    rw [grow, if_neg short, List.getElem?_eq_getElem old, List.getD_eq_getElem l z old]

theorem length_copyAt {l : List α} {pos : Nat} {buf : List α}
    (fits : pos + buf.length ≤ l.length) : (copyAt l pos buf).length = l.length := by
  simp only [copyAt, List.length_append, List.length_take, List.length_drop]
  omega

theorem getElem?_copyAt {l : List α} {pos : Nat} {buf : List α}
    (fits : pos + buf.length ≤ l.length) (i : Nat) :
    (copyAt l pos buf)[i]? =
      if pos ≤ i ∧ i < pos + buf.length then buf[i - pos]? else l[i]? := by
  have front : (l.take pos).length = pos := by rw [List.length_take]; omega
  have middle : (l.take pos ++ buf).length = pos + buf.length := by
    rw [List.length_append, front]
  by_cases before : i < pos
  · rw [if_neg (by omega), copyAt, List.append_assoc,
      List.getElem?_append_left (by omega), List.getElem?_take_of_lt before]
  · by_cases inside : i < pos + buf.length
    · rw [if_pos ⟨by omega, inside⟩, copyAt, List.getElem?_append_left (by omega),
        List.getElem?_append_right (by omega), front]
    · rw [if_neg (by omega), copyAt, List.getElem?_append_right (by omega), middle,
        List.getElem?_drop]
      congr 1
      omega

@[simp] theorem length_put (z : α) (l : List α) (pos : Nat) (buf : List α) :
    (put z l pos buf).length = max l.length (pos + buf.length) := by
  rw [put, length_copyAt (by rw [length_grow]; omega), length_grow]

/-- The write law: inside the range the written elements, elsewhere the old ones
or the filler of a gap. -/
theorem getElem?_put (z : α) (l : List α) (pos : Nat) (buf : List α) {i : Nat}
    (hi : i < max l.length (pos + buf.length)) :
    (put z l pos buf)[i]? =
      if pos ≤ i ∧ i < pos + buf.length then buf[i - pos]? else some (l.getD i z) := by
  rw [put, getElem?_copyAt (by rw [length_grow]; omega)]
  split
  · rfl
  · exact getElem?_grow z l hi

theorem getElem?_put_inside (z : α) (l : List α) {pos : Nat} {buf : List α} {j : Nat}
    (hj : j < buf.length) : (put z l pos buf)[pos + j]? = buf[j]? := by
  rw [getElem?_put z l pos buf (by omega), if_pos ⟨by omega, by omega⟩, Nat.add_sub_cancel_left]

/-- Outside the written range an element that was there stays. -/
theorem getElem?_put_outside (z : α) {l : List α} {pos : Nat} {buf : List α} {i : Nat} {a : α}
    (old : l[i]? = some a) (outside : ¬(pos ≤ i ∧ i < pos + buf.length)) :
    (put z l pos buf)[i]? = some a := by
  obtain ⟨hi, ha⟩ := List.getElem?_eq_some_iff.mp old
  rw [getElem?_put z l pos buf (by omega), if_neg outside, List.getD_eq_getElem l z hi, ha]

/-- Nothing written inside the list changes nothing. -/
theorem put_nil (z : α) {l : List α} {pos : Nat} (inside : pos ≤ l.length) :
    put z l pos [] = l := by
  have noGap : ¬l.length < pos + ([] : List α).length := Nat.not_lt.mpr inside
  rw [put, grow, if_neg noGap, copyAt, List.append_nil, List.length_nil, Nat.add_zero,
    List.take_append_drop]

end SparseArray
