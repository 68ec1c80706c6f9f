import Mathlib.Logic.Function.Iterate
import Mathlib.Tactic.Common

/-!
# Invertible operations on machine words

Rotations, products with a unit and xors with a shifted copy lose no information.
Generators built from them are shown injective by composing these facts.
-/

namespace WordBijections

open Function

variable {w : Nat}

theorem rotateLeft_injective (r : Nat) : Injective (fun x : BitVec w => x.rotateLeft r) := by
  intro x y same
  ext i hi
  have positive : 0 < w := by omega
  have turn : r % w < w := Nat.mod_lt r positive
  -- bit `i` of the argument is bit `i + r` of the result, wrapped around
  by_cases wraps : i + r % w < w
  · have bit := congrArg (fun z => z.getLsbD (i + r % w)) same
    have above : ¬i + r % w < r % w := by omega
    simpa [above, wraps, BitVec.getLsbD_eq_getElem hi] using bit
  · have bit := congrArg (fun z => z.getLsbD (i + r % w - w)) same
    have below : i + r % w - w < r % w := by omega
    have back : w - r % w + (i + r % w - w) = i := by omega
    simpa [below, back, BitVec.getLsbD_eq_getElem hi] using bit

theorem rotateLeft_xor (x y : BitVec w) (r : Nat) :
    (x ^^^ y).rotateLeft r = x.rotateLeft r ^^^ y.rotateLeft r := by
  ext i hi
  simp only [BitVec.getElem_rotateLeft, BitVec.getElem_xor]
  split <;> rfl

theorem mul_injective_of_inverse {a b : BitVec w} (inverse : a * b = 1#w) :
    Injective (fun x : BitVec w => x * a) := by
  intro x y same
  have undone := congrArg (fun z => z * b) same
  simpa only [BitVec.mul_assoc, inverse, BitVec.mul_one] using undone

/-- A word that equals its own shift has a zero below every bit, so it is zero. -/
theorem eq_zero_of_eq_shiftLeft {k : Nat} (shifts : 0 < k) {z : BitVec w}
    (same : z = z <<< k) : z = 0#w := by
  have clear : ∀ i, z.getLsbD i = false := by
    intro i
    induction i using Nat.strongRecOn with
    | ind i ih =>
      rw [same, BitVec.getLsbD_shiftLeft]
      by_cases low : i < k
      · simp [low]
      · rw [ih (i - k) (by omega), Bool.and_false]
  ext i hi
  rw [← BitVec.getLsbD_eq_getElem hi, clear i, BitVec.getElem_zero]

/-- Adding its image under a linear map that fixes only zero loses nothing of a word. -/
theorem xor_image_injective {f : BitVec w → BitVec w}
    (linear : ∀ x y, f (x ^^^ y) = f x ^^^ f y) (fixes : ∀ z, z = f z → z = 0#w) :
    Injective (fun x => x ^^^ f x) := by
  intro x y same
  have difference : x ^^^ y = f (x ^^^ y) := by
    rw [linear, ← BitVec.xor_left_inj (f x), ← BitVec.xor_right_inj y]
    calc y ^^^ (x ^^^ y ^^^ f x) = x ^^^ f x := by
          rw [BitVec.xor_comm x y, ← BitVec.xor_assoc, ← BitVec.xor_assoc, BitVec.xor_self,
            BitVec.zero_xor]
      _ = y ^^^ f y := same
      _ = y ^^^ (f x ^^^ f y ^^^ f x) := by
          rw [BitVec.xor_comm (f x) (f y), BitVec.xor_assoc, BitVec.xor_self, BitVec.xor_zero]
  rw [← BitVec.xor_left_inj y, BitVec.xor_self]
  exact fixes _ difference

theorem xor_shiftLeft_injective {k : Nat} (shifts : 0 < k) :
    Injective (fun x : BitVec w => x ^^^ x <<< k) :=
  xor_image_injective (fun x y => BitVec.shiftLeft_xor_distrib x y k)
    fun _ => eq_zero_of_eq_shiftLeft shifts

theorem eq_zero_of_eq_ushiftRight {k : Nat} (shifts : 0 < k) {z : BitVec w}
    (same : z = z >>> k) : z = 0#w := by
  have value : z.toNat = z.toNat / 2 ^ k := by
    rw [← Nat.shiftRight_eq_div_pow, ← BitVec.toNat_ushiftRight, ← same]
  apply BitVec.eq_of_toNat_eq
  by_contra positive
  rw [BitVec.toNat_ofNat, Nat.zero_mod] at positive
  have more : 1 < 2 ^ k := Nat.one_lt_two_pow (Nat.ne_of_gt shifts)
  have less := Nat.div_lt_self (Nat.pos_of_ne_zero positive) more
  omega

theorem xor_ushiftRight_injective {k : Nat} (shifts : 0 < k) :
    Injective (fun x : BitVec w => x ^^^ x >>> k) :=
  xor_image_injective (fun x y => BitVec.ushiftRight_xor_distrib x y k)
    fun _ => eq_zero_of_eq_ushiftRight shifts

/-- An odd factor is coprime to the modulus. -/
theorem mul_injective_of_odd {a : BitVec w} (odd : a.toNat % 2 = 1) :
    Injective (fun x : BitVec w => x * a) := by
  intro x y same
  have vanishes : a * (x - y) = 0#w := by
    rw [BitVec.mul_sub, BitVec.sub_eq_iff_eq_add, BitVec.zero_add, BitVec.mul_comm,
      BitVec.mul_comm a]
    exact same
  have coprime : Nat.Coprime (2 ^ w) a.toNat := by
    apply Nat.Coprime.pow_left
    rw [Nat.Coprime, Nat.gcd_rec, odd, Nat.gcd_one_left]
  have multiple : 2 ^ w ∣ (x - y).toNat := by
    refine coprime.dvd_of_dvd_mul_left ?_
    have value := congrArg BitVec.toNat vanishes
    rw [BitVec.toNat_mul] at value
    exact Nat.dvd_of_mod_eq_zero value
  have equal : x - y = 0#w :=
    BitVec.eq_of_toNat_eq (Nat.eq_zero_of_dvd_of_lt multiple (x - y).isLt)
  rw [BitVec.sub_eq_iff_eq_add.mp equal, BitVec.zero_add]

end WordBijections
