import Mathlib.Data.FinEnum
import Mathlib.Data.Finite.Prod
import Redstone.MachineWords
import Redstone.WordBijections

/-!
# The random number generators

`xoshiro256_star_star` and `split_mix`, and what seeding one generator from another
keeps. The state of a xoshiro generator can be read back from four consecutive draws,
so two generators seeded from different states differ.
-/

namespace Generators

open MachineWords Function

/-- The array `state_` of `xoshiro256_star_star`. -/
structure Xoshiro where
  s0 : U64
  s1 : U64
  s2 : U64
  s3 : U64
  deriving DecidableEq

/-- The multiplications and the rotation that scramble the second word. -/
def scramble (x : U64) : U64 := (x * 5).rotateLeft 7 * 9

namespace Xoshiro

/-- The state after one draw. -/
def advance (x : Xoshiro) : Xoshiro :=
  let t := x.s1 <<< 17
  let s2 := x.s2 ^^^ x.s0
  let s3 := x.s3 ^^^ x.s1
  let s1 := x.s1 ^^^ s2
  let s0 := x.s0 ^^^ s3
  ⟨s0, s1, s2 ^^^ t, s3.rotateLeft 45⟩

def next (x : Xoshiro) : U64 × Xoshiro := (scramble x.s1, x.advance)

end Xoshiro

structure SplitMix where
  seed : U64
  gamma : U64
  deriving DecidableEq

/-- The constructor's default for `gamma`. -/
def defaultGamma : U64 := 0x9e3779b97f4a7c15

/-- The finaliser returns a `uint32_t`, so its high half is cut off. -/
def mix64 (z : U64) : BitVec 32 :=
  let z := (z ^^^ z >>> 33) * 0xff51afd7ed558ccd
  let z := (z ^^^ z >>> 33) * 0xc4ceb9fe1a85ec53
  (z ^^^ z >>> 33).setWidth 32

namespace SplitMix

def next (g : SplitMix) : U64 × SplitMix :=
  let seed := g.seed + g.gamma
  ((mix64 seed).setWidth 64, { g with seed })

end SplitMix

/-- `seed_from`: four draws of the source become the four words of the state. -/
def seedFrom {G : Type} (next : G → U64 × G) (rng : G) : Xoshiro × G :=
  let (a, rng) := next rng
  let (b, rng) := next rng
  let (c, rng) := next rng
  let (d, rng) := next rng
  (⟨a, b, c, d⟩, rng)

theorem scramble_injective : Injective scramble := by
  have byNine : Injective (fun x : U64 => x * 9) :=
    WordBijections.mul_injective_of_inverse (b := 0x8e38e38e38e38e39) (by decide)
  have byFive : Injective (fun x : U64 => x * 5) :=
    WordBijections.mul_injective_of_inverse (b := 0xcccccccccccccccd) (by decide)
  exact byNine.comp ((WordBijections.rotateLeft_injective 7).comp byFive)

namespace Xoshiro

theorem xor_middle (a m b : U64) : (a ^^^ m) ^^^ (m ^^^ b) = a ^^^ b := by
  rw [BitVec.xor_assoc, ← BitVec.xor_assoc m, BitVec.xor_self, BitVec.zero_xor]

/-- No two states have the same successor. -/
theorem advance_injective : Injective advance := by
  rintro ⟨a, b, c, d⟩ ⟨a', b', c', d'⟩ same
  obtain ⟨first, second, third, fourth⟩ := Xoshiro.mk.inj same
  simp only at first second third fourth
  have turned : d ^^^ b = d' ^^^ b' := WordBijections.rotateLeft_injective 45 fourth
  have s0 : a = a' := by
    rw [turned] at first
    exact (BitVec.xor_left_inj _).mp first
  have mixed : b ^^^ b <<< 17 = b' ^^^ b' <<< 17 := by
    have sum := congrArg₂ (fun x y => x ^^^ y) second third
    simpa only [xor_middle] using sum
  have s1 : b = b' := WordBijections.xor_shiftLeft_injective (by decide) mixed
  subst s0 s1
  have s2 : c = c' := (BitVec.xor_left_inj _).mp ((BitVec.xor_right_inj _).mp second)
  have s3 : d = d' := (BitVec.xor_left_inj _).mp turned
  rw [s2, s3]

/-- Two successive second words fix the sum that the middle words are built from. -/
theorem sum_of_second_words {x y : Xoshiro} (now : x.s1 = y.s1)
    (later : x.advance.s1 = y.advance.s1) :
    x.s2 ^^^ x.s0 = y.s2 ^^^ y.s0 ∧ x.advance.s2 = y.advance.s2 := by
  have sum : x.s2 ^^^ x.s0 = y.s2 ^^^ y.s0 := by
    change x.s1 ^^^ (x.s2 ^^^ x.s0) = y.s1 ^^^ (y.s2 ^^^ y.s0) at later
    rw [now] at later
    exact (BitVec.xor_right_inj _).mp later
  refine ⟨sum, ?_⟩
  change (x.s2 ^^^ x.s0) ^^^ x.s1 <<< 17 = (y.s2 ^^^ y.s0) ^^^ y.s1 <<< 17
  rw [sum, now]

/-- Four successive second words determine the state. -/
theorem eq_of_second_words {x y : Xoshiro} (first : x.s1 = y.s1)
    (second : x.advance.s1 = y.advance.s1)
    (third : x.advance.advance.s1 = y.advance.advance.s1)
    (fourth : x.advance.advance.advance.s1 = y.advance.advance.advance.s1) : x = y := by
  obtain ⟨_, s2⟩ := sum_of_second_words first second
  obtain ⟨sum, s2'⟩ := sum_of_second_words second third
  obtain ⟨sum', _⟩ := sum_of_second_words third fourth
  have s0 : x.advance.s0 = y.advance.s0 := by
    rw [s2] at sum
    exact (BitVec.xor_right_inj _).mp sum
  have s0' : x.advance.advance.s0 = y.advance.advance.s0 := by
    rw [s2'] at sum'
    exact (BitVec.xor_right_inj _).mp sum'
  have s3 : x.advance.s3 = y.advance.s3 := by
    change x.advance.s0 ^^^ (x.advance.s3 ^^^ x.advance.s1) =
      y.advance.s0 ^^^ (y.advance.s3 ^^^ y.advance.s1) at s0'
    rw [s0, second] at s0'
    exact (BitVec.xor_left_inj _).mp ((BitVec.xor_right_inj _).mp s0')
  apply advance_injective
  cases hx : x.advance
  cases hy : y.advance
  simp_all only

theorem seedFrom_next (x : Xoshiro) :
    seedFrom next x = (⟨scramble x.s1, scramble x.advance.s1, scramble x.advance.advance.s1,
      scramble x.advance.advance.advance.s1⟩, advance^[4] x) := rfl

/-- Seeding one generator from another loses nothing. -/
theorem seedFrom_injective : Injective (fun x => (seedFrom next x).1) := by
  intro x y same
  simp only [seedFrom_next, Xoshiro.mk.injEq] at same
  obtain ⟨first, second, third, fourth⟩ := same
  exact eq_of_second_words (scramble_injective first) (scramble_injective second)
    (scramble_injective third) (scramble_injective fourth)

/-! ## The state always moves

A draw is linear over xor. A linear map that fixes only zero keeps this property when it
is iterated twice, and so four times. -/

def zero : Xoshiro := ⟨0, 0, 0, 0⟩

def xor (x y : Xoshiro) : Xoshiro :=
  ⟨x.s0 ^^^ y.s0, x.s1 ^^^ y.s1, x.s2 ^^^ y.s2, x.s3 ^^^ y.s3⟩

theorem xor_comm (x y : Xoshiro) : x.xor y = y.xor x := by
  simp only [xor, BitVec.xor_comm]

theorem xor_eq_zero {x y : Xoshiro} : x.xor y = zero ↔ x = y := by
  have word : ∀ {a b : U64}, a ^^^ b = 0 ↔ a = b := BitVec.xor_eq_zero_iff
  obtain ⟨a, b, c, d⟩ := x
  obtain ⟨a', b', c', d'⟩ := y
  simp only [xor, zero, Xoshiro.mk.injEq, word]

theorem advance_xor (x y : Xoshiro) : (x.xor y).advance = x.advance.xor y.advance := by
  have regroup : ∀ a b c d : U64, (a ^^^ b) ^^^ (c ^^^ d) = (a ^^^ c) ^^^ (b ^^^ d) := by
    intro a b c d
    rw [BitVec.xor_assoc, ← BitVec.xor_assoc b, BitVec.xor_comm b c, BitVec.xor_assoc c,
      ← BitVec.xor_assoc]
  simp only [advance, xor, regroup, BitVec.shiftLeft_xor_distrib,
    WordBijections.rotateLeft_xor]

/-- Iterating twice a linear map that fixes only zero. -/
theorem twice_fixes_zero {f : Xoshiro → Xoshiro} (linear : ∀ x y, f (x.xor y) = (f x).xor (f y))
    (moves : ∀ x, f x = x → x = zero) (x : Xoshiro) (same : f (f x) = x) : x = zero := by
  have difference : f (x.xor (f x)) = x.xor (f x) := by
    rw [linear, same, xor_comm]
  exact moves x (xor_eq_zero.mp (moves _ difference)).symm

theorem advance_moves (x : Xoshiro) (same : x.advance = x) : x = zero := by
  have vanishes : ∀ {p q : U64}, p ^^^ q = p → q = 0#64 := by
    intro p q unmoved
    exact (BitVec.xor_right_inj p).mp (unmoved.trans (BitVec.xor_zero).symm)
  obtain ⟨a, b, c, d⟩ := x
  obtain ⟨first, second, third, fourth⟩ := Xoshiro.mk.inj same
  simp only at first second third fourth
  have turned : (0#64).rotateLeft 45 = 0#64 := by decide
  have outer : d ^^^ b = 0#64 := vanishes first
  have inner : c ^^^ a = 0#64 := vanishes second
  rw [outer, turned] at fourth
  rw [inner, BitVec.zero_xor] at third
  have d_zero : d = 0#64 := fourth.symm
  have b_zero : b = 0#64 := by rwa [d_zero, BitVec.zero_xor] at outer
  have c_zero : c = 0#64 := by
    rw [← third, b_zero, BitVec.zero_shiftLeft]
  have a_zero : a = 0#64 := by rwa [c_zero, BitVec.zero_xor] at inner
  rw [a_zero, b_zero, c_zero, d_zero]
  rfl

theorem advance_four_fixed_iff (x : Xoshiro) : advance^[4] x = x ↔ x = zero := by
  constructor
  · intro same
    have linear : ∀ y z : Xoshiro,
        (y.xor z).advance.advance = y.advance.advance.xor z.advance.advance := by
      intro y z
      rw [advance_xor, advance_xor]
    have moves : ∀ y : Xoshiro, y.advance.advance = y → y = zero :=
      twice_fixes_zero advance_xor advance_moves
    exact twice_fixes_zero linear moves x same
  · rintro rfl
    rfl

/-! ## The state is permuted

There are finitely many states, so a draw that merges none reaches all. Zero follows
itself, so it follows no other state. -/

theorem advance_bijective : Bijective advance := by
  have finite : Finite Xoshiro := by
    apply Finite.of_injective fun x : Xoshiro => (x.s0, x.s1, x.s2, x.s3)
    rintro ⟨a, b, c, d⟩ ⟨a', b', c', d'⟩ same
    simpa only [Prod.mk.injEq, Xoshiro.mk.injEq] using same
  exact Finite.injective_iff_bijective.mp advance_injective

theorem iterate_zero (n : Nat) : advance^[n] zero = zero := iterate_fixed rfl n

/-- No number of draws leads from another state to zero. -/
theorem iterate_eq_zero_iff (n : Nat) (x : Xoshiro) : advance^[n] x = zero ↔ x = zero := by
  constructor
  · intro dead
    exact advance_injective.iterate n (dead.trans (iterate_zero n).symm)
  · rintro rfl
    exact iterate_zero n

/-- A draw permutes the states. Only zero leads to zero, in one draw or in many, and from
there every output is zero. -/
theorem next_permutes :
    Bijective (fun x : Xoshiro => x.next.2) ∧ (∀ x : Xoshiro, x.next.2 = zero ↔ x = zero) ∧
      (∀ n (x : Xoshiro), (fun y : Xoshiro => y.next.2)^[n] x = zero ↔ x = zero) ∧
      ∀ n, ((fun y : Xoshiro => y.next.2)^[n] zero).next.1 = 0 := by
  refine ⟨advance_bijective, iterate_eq_zero_iff 1, iterate_eq_zero_iff, ?_⟩
  intro n
  have stays : (fun y : Xoshiro => y.next.2)^[n] zero = zero := iterate_zero n
  rw [stays]
  rfl

/-- A generator seeded from another is dead only if the other is. -/
theorem seedFrom_eq_zero_iff (x : Xoshiro) : (seedFrom next x).1 = zero ↔ x = zero := by
  have dead : (seedFrom next zero).1 = zero := rfl
  constructor
  · intro seeded
    exact seedFrom_injective (seeded.trans dead.symm)
  · rintro rfl
    exact dead

end Xoshiro

end Generators
