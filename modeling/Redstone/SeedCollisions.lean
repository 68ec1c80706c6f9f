import Redstone.Generators
import Redstone.WordCounts

/-!
# Collisions of the seeding generator

The three shifts and two products of the finaliser are a bijection of 64-bit words, and
an odd `gamma` leads through all counters. What is cut off makes outputs collide: each
32-bit word is the output at 2^32 positions, and the first word of 2^32 seeds.
-/

namespace SeedCollisions

open MachineWords Generators Function

/-- The finaliser before it is narrowed to its return type. -/
def finalise (z : U64) : U64 :=
  let z := (z ^^^ z >>> 33) * 0xff51afd7ed558ccd
  let z := (z ^^^ z >>> 33) * 0xc4ceb9fe1a85ec53
  z ^^^ z >>> 33

/-- What `next` returns at the position `n`, the first being zero. -/
def output (g : SplitMix) (n : Nat) : U64 := ((fun h : SplitMix => h.next.2)^[n] g).next.1

/-- The first word of the generator of a simulator with this seed. -/
def firstWord (seed : U64) : U64 := (seedFrom SplitMix.next ⟨seed, defaultGamma⟩).1.s0

def Distinct (g : SplitMix) : Prop :=
  ∀ i < 2 ^ 64, ∀ j < 2 ^ 64, i ≠ j → output g i ≠ output g j

/-- No other seed gives the same first word. -/
def Unshared (seed : U64) : Prop := ∀ other, other ≠ seed → firstWord other ≠ firstWord seed

theorem mix64_eq (z : U64) : mix64 z = (finalise z).setWidth 32 := rfl

theorem finalise_injective : Injective finalise := by
  have shifted : Injective (fun z : U64 => z ^^^ z >>> 33) :=
    WordBijections.xor_ushiftRight_injective (by decide)
  have first : Injective (fun z : U64 => z * 0xff51afd7ed558ccd) :=
    WordBijections.mul_injective_of_odd (by decide)
  have second : Injective (fun z : U64 => z * 0xc4ceb9fe1a85ec53) :=
    WordBijections.mul_injective_of_odd (by decide)
  exact shifted.comp (second.comp (shifted.comp (first.comp shifted)))

/-- Each word is the finaliser's result for 2^32 counters. -/
theorem ncard_mix64 (v : BitVec 32) : {z : U64 | mix64 z = v}.ncard = 2 ^ 32 := by
  simp only [mix64_eq]
  exact (WordCounts.ncard_preimage finalise_injective {z | z.setWidth 32 = v}).trans
    (WordCounts.ncard_setWidth (by decide) v)

theorem widened_inj {a b : BitVec 32} : a.setWidth 64 = b.setWidth 64 ↔ a = b := by
  constructor
  · intro same
    have narrowed := congrArg (BitVec.setWidth 32) same
    rwa [BitVec.setWidth_setWidth_of_le _ (by decide), BitVec.setWidth_setWidth_of_le _ (by decide),
      BitVec.setWidth_eq, BitVec.setWidth_eq] at narrowed
  · exact congrArg (BitVec.setWidth 64)

/-! ## Positions and counters -/

/-- The counter that the output at a position is computed from. -/
def counter (g : SplitMix) (n : U64) : U64 := g.seed + (n + 1#64) * g.gamma

theorem iterate_next (g : SplitMix) (n : Nat) :
    (fun h : SplitMix => h.next.2)^[n] g = ⟨g.seed + BitVec.ofNat 64 n * g.gamma, g.gamma⟩ := by
  induction n with
  | zero =>
    rw [iterate_zero_apply, BitVec.zero_mul, BitVec.add_zero]
  | succ n ih =>
    rw [iterate_succ_apply', ih]
    simp only [SplitMix.next, SplitMix.mk.injEq, and_true]
    rw [BitVec.ofNat_add, BitVec.add_mul, BitVec.one_mul, BitVec.add_assoc]

theorem output_eq (g : SplitMix) (n : Nat) :
    output g n = (mix64 (counter g (BitVec.ofNat 64 n))).setWidth 64 := by
  rw [output, iterate_next]
  simp only [SplitMix.next]
  rw [counter, BitVec.add_mul, BitVec.one_mul, BitVec.add_assoc]

theorem counter_injective {g : SplitMix} (odd : g.gamma.toNat % 2 = 1) :
    Injective (counter g) := by
  intro m n same
  have products := (BitVec.add_right_inj g.seed).mp same
  exact (BitVec.add_left_inj 1#64).mp (WordBijections.mul_injective_of_odd odd products)

theorem firstWord_eq (seed : U64) :
    firstWord seed = (mix64 (seed + defaultGamma)).setWidth 64 := rfl

/-- The positions of an output, as numbers and as words. -/
theorem positions_eq (g : SplitMix) (v : BitVec 32) :
    {i | i < 2 ^ 64 ∧ output g i = v.setWidth 64} =
      BitVec.toNat '' {n : U64 | mix64 (counter g n) = v} := by
  ext i
  simp only [Set.mem_image, Set.mem_ofPred_eq, output_eq, widened_inj]
  constructor
  · rintro ⟨small, same⟩
    refine ⟨BitVec.ofNat 64 i, same, ?_⟩
    rw [BitVec.toNat_ofNat, Nat.mod_eq_of_lt small]
  · rintro ⟨n, same, rfl⟩
    refine ⟨n.isLt, ?_⟩
    rwa [BitVec.ofNat_toNat, BitVec.setWidth_eq]

theorem ncard_positions {g : SplitMix} (odd : g.gamma.toNat % 2 = 1) (v : BitVec 32) :
    {i | i < 2 ^ 64 ∧ output g i = v.setWidth 64}.ncard = 2 ^ 32 := by
  rw [positions_eq, Set.ncard_image_of_injective _ BitVec.toNat_injective]
  exact (WordCounts.ncard_preimage (counter_injective odd) {z | mix64 z = v}).trans
    (ncard_mix64 v)

theorem ncard_sharers (seed : U64) : {other | firstWord other = firstWord seed}.ncard = 2 ^ 32 := by
  have shift : Injective (fun other : U64 => other + defaultGamma) := by
    intro a b same
    exact (BitVec.add_left_inj defaultGamma).mp same
  simp only [firstWord_eq, widened_inj]
  exact (WordCounts.ncard_preimage shift {z | mix64 z = mix64 (seed + defaultGamma)}).trans
    (ncard_mix64 _)

/-- Two of many. -/
theorem exists_two {α : Type} {s : Set α} (many : s.ncard = 2 ^ 32) :
    ∃ a ∈ s, ∃ b ∈ s, a ≠ b := by
  refine (Set.one_lt_ncard ?_).mp ?_
  · apply Set.finite_of_ncard_pos
    rw [many]
    decide
  · rw [many]
    decide

/-- For no odd `gamma` and no seed are the outputs at all positions distinct, and no seed
has its first word for itself: every 32-bit word is the output at 2^32 of the 2^64
positions, and 2^32 seeds share each first word. -/
theorem outputs_collide {g : SplitMix} (odd : g.gamma.toNat % 2 = 1) :
    ¬Distinct g ∧ (∀ seed, ¬Unshared seed) ∧
      (∀ v : BitVec 32, {i | i < 2 ^ 64 ∧ output g i = v.setWidth 64}.ncard = 2 ^ 32) ∧
      ∀ seed, {other | firstWord other = firstWord seed}.ncard = 2 ^ 32 := by
  refine ⟨?_, ?_, ncard_positions odd, ncard_sharers⟩
  · intro distinct
    obtain ⟨i, ⟨hi, first⟩, j, ⟨hj, second⟩, other⟩ := exists_two (ncard_positions odd 0)
    exact distinct i hi j hj other (first.trans second.symm)
  · intro seed unshared
    obtain ⟨a, sharesA, b, sharesB, other⟩ := exists_two (ncard_sharers seed)
    by_cases same : a = seed
    · exact unshared b (fun again => other (same.trans again.symm)) sharesB
    · exact unshared a same sharesA

/-- The generator of a simulator with the demo's seed repeats outputs, and other seeds
start with the same word. -/
theorem outputs_collide_demo_seed :
    ¬Distinct ⟨0xfeedbeef, defaultGamma⟩ ∧ ¬Unshared 0xfeedbeef := by
  have collide := outputs_collide (g := ⟨0xfeedbeef, defaultGamma⟩) (by decide)
  exact ⟨collide.1, collide.2.1 0xfeedbeef⟩

/-- Two positions of one generator, and two seeds. -/
theorem two_outputs_agree : ¬Distinct ⟨0, defaultGamma⟩ ∧ ¬Unshared 67313 := by
  constructor
  · intro distinct
    have positions : output ⟨0, defaultGamma⟩ 42304 = output ⟨0, defaultGamma⟩ 148410 := by
      rw [output_eq, output_eq]
      decide
    exact distinct 42304 (by decide) 148410 (by decide) (by decide) positions
  · intro unshared
    exact unshared 93415 (by decide) (by decide)

end SeedCollisions
