import Mathlib.Tactic.Linarith
import Mathlib.Tactic.NormNum
import Redstone.UniformSampling

/-!
# The threshold of a chance

`gen_bool` compares a draw with the chance scaled by 2^64. Doubles below one are at least
2^-53 away from it, so their thresholds fit in 64 bits and stay clear of the largest word,
which the code takes for "always". One itself scales to 2^64, which does not fit: what the
conversion gives is left to the host.
-/

namespace ChanceThreshold

open MachineWords Generators FaultSampling

/-- A significand of 53 bits, scaled. -/
def IsDouble (q : ℚ) : Prop :=
  ∃ m e : Int, |m| < 2 ^ 53 ∧ -1074 ≤ e ∧ e ≤ 971 ∧ q = m * 2 ^ e

/-- The draws for which `gen_bool` is true. -/
def acceptedDraws (host : Host) (p : Double) : Set U64 :=
  {v | ∃ rng : Xoshiro, rng.next.1 = v ∧ (genBool host rng p).1 = true}

/-- The scaled chance fits in a `uint64_t`, it is the number of accepted draws, and a
smaller chance accepts no other draw. -/
structure Exact (host : Host) (q : ℚ) : Prop where
  fits : 0 ≤ (q * 2 ^ 64).floor ∧ (q * 2 ^ 64).floor < 2 ^ 64
  count : (acceptedDraws host (.finite q)).ncard = (q * 2 ^ 64).floor.toNat
  monotone : ∀ p, IsDouble p → 0 ≤ p → p ≤ q →
    acceptedDraws host (.finite p) ⊆ acceptedDraws host (.finite q)

/-- There is no double between `1 - 2 ^ -53` and one. -/
theorem double_gap {q : ℚ} (double : IsDouble q) (below : q < 1) : q * 2 ^ 53 ≤ 2 ^ 53 - 1 := by
  obtain ⟨m, e, digits, -, -, rfl⟩ := double
  have significand : (m : ℚ) < 2 ^ 53 := by
    have bound := (abs_lt.mp digits).2
    exact_mod_cast bound
  by_cases coarse : -53 ≤ e
  · -- the value is an integer multiple of 2 ^ -53
    obtain ⟨k, steps⟩ := Int.le.dest coarse
    have scaled : (m : ℚ) * 2 ^ e * 2 ^ 53 = ((m * 2 ^ k : Int) : ℚ) := by
      have exponent : e + 53 = k := by omega
      rw [mul_assoc, ← zpow_natCast (2 : ℚ) 53, ← zpow_add₀ (by norm_num), Nat.cast_ofNat,
        exponent, zpow_natCast]
      push_cast
      rfl
    have whole : ((m * 2 ^ k : Int) : ℚ) < ((2 ^ 53 : Int) : ℚ) := by
      rw [← scaled]
      push_cast
      linarith
    have next : m * 2 ^ k ≤ 2 ^ 53 - 1 := Int.le_sub_one_of_lt (by exact_mod_cast whole)
    rw [scaled]
    exact_mod_cast next
  · -- the value is less than one half
    have small : (2 : ℚ) ^ e ≤ 2 ^ (-54 : Int) :=
      zpow_le_zpow_right₀ (by norm_num) (by omega)
    have positive : (0 : ℚ) < 2 ^ e := zpow_pos (by norm_num) e
    have half : (m : ℚ) * 2 ^ e ≤ 2 ^ 53 * 2 ^ (-54 : Int) := by
      calc (m : ℚ) * 2 ^ e ≤ 2 ^ 53 * 2 ^ e :=
            mul_le_mul_of_nonneg_right significand.le positive.le
        _ ≤ 2 ^ 53 * 2 ^ (-54 : Int) := mul_le_mul_of_nonneg_left small (by norm_num)
    have value : (2 : ℚ) ^ 53 * 2 ^ (-54 : Int) = 1 / 2 := by norm_num
    rw [value] at half
    norm_num at half ⊢
    linarith

theorem floor_nonneg {q : ℚ} (nonneg : 0 ≤ q) : 0 ≤ (q * 2 ^ 64).floor :=
  Rat.le_floor_iff.mpr (by push_cast; linarith)

/-- The threshold of a double below one is not the largest word. -/
theorem floor_below {q : ℚ} (double : IsDouble q) (below : q < 1) :
    (q * 2 ^ 64).floor < 2 ^ 64 - 1 := by
  have gap := double_gap double below
  apply Rat.floor_lt_iff.mpr
  push_cast
  linarith

theorem threshold_toNat (host : Host) {q : ℚ} (double : IsDouble q) (nonneg : 0 ≤ q)
    (below : q < 1) : (threshold host (.finite q)).toNat = (q * 2 ^ 64).floor.toNat := by
  have inRange : -1 < q * 2 ^ 64 ∧ q * 2 ^ 64 < 2 ^ 64 := by
    constructor
    · linarith
    · linarith
  have small := floor_below double below
  rw [threshold, if_pos inRange, BitVec.toNat_ofNat]
  exact Nat.mod_eq_of_lt (by omega)

/-- Below one the accepted draws are those under the threshold. -/
theorem acceptedDraws_eq (host : Host) {q : ℚ} (double : IsDouble q) (nonneg : 0 ≤ q)
    (below : q < 1) :
    acceptedDraws host (.finite q) = {v | v.toNat < (q * 2 ^ 64).floor.toNat} := by
  have value := threshold_toNat host double nonneg below
  have small := floor_below double below
  have other : threshold host (.finite q) ≠ BitVec.allOnes 64 := by
    intro always
    rw [always, BitVec.toNat_allOnes] at value
    omega
  ext v
  rw [acceptedDraws, Set.mem_ofPred_eq, Set.mem_ofPred_eq, ← value]
  simp only [genBool, if_neg other, decide_eq_true_eq]
  constructor
  · rintro ⟨rng, rfl, accepted⟩
    exact accepted
  · intro accepted
    obtain ⟨rng, drawn⟩ := UniformSampling.next_surjective v
    exact ⟨rng, drawn, drawn ▸ accepted⟩

theorem exact_below_one (host : Host) {q : ℚ} (double : IsDouble q) (nonneg : 0 ≤ q)
    (below : q < 1) : Exact host q := by
  have small := floor_below double below
  refine ⟨⟨floor_nonneg nonneg, by omega⟩, ?_, ?_⟩
  · rw [acceptedDraws_eq host double nonneg below]
    exact WordCounts.ncard_below (by omega)
  · intro p double' nonneg' smaller v accepted
    rw [acceptedDraws_eq host double' nonneg' (by linarith)] at accepted
    rw [acceptedDraws_eq host double nonneg below]
    have order : (p * 2 ^ 64).floor ≤ (q * 2 ^ 64).floor :=
      Rat.floor_monotone (by linarith)
    exact Nat.lt_of_lt_of_le accepted (Int.toNat_le_toNat order)

/-- For every chance that the assertion admits, on every host: the threshold fits, exactly
`⌊p * 2 ^ 64⌋` of the draws are accepted and smaller chances accept no others, if and only
if the chance is not one. -/
theorem gen_bool_exact_iff (host : Host) {q : ℚ} (double : IsDouble q) (nonneg : 0 ≤ q)
    (atMost : q ≤ 1) : Exact host q ↔ q ≠ 1 := by
  constructor
  · rintro exact rfl
    have scaled : ((1 : ℚ) * 2 ^ 64).floor = 2 ^ 64 := by decide +kernel
    exact absurd exact.fits.2 (by rw [scaled]; decide)
  · intro other
    exact exact_below_one host double nonneg (lt_of_le_of_ne atMost other)

/-- A replay chance of one half. -/
theorem gen_bool_exact_half : Exact ⟨fun _ rng => (false, rng), fun _ => 0⟩ (1 / 2) :=
  (gen_bool_exact_iff _ ⟨1, -1, by decide, by decide, by decide, by norm_num⟩ (by norm_num)
    (by norm_num)).mpr (by norm_num)

/-- A host whose conversion of 2^64 gives zero never says yes to a chance of one. -/
theorem certain_never_accepted :
    IsDouble 1 ∧ ¬Exact ⟨fun _ rng => (false, rng), fun _ => 0⟩ 1 ∧
      acceptedDraws ⟨fun _ rng => (false, rng), fun _ => 0⟩ (.finite 1) = ∅ := by
  have scaled : ((1 : ℚ) * 2 ^ 64).floor = 2 ^ 64 := by decide +kernel
  have outside : ¬(-1 < (1 : ℚ) * 2 ^ 64 ∧ (1 : ℚ) * 2 ^ 64 < 2 ^ 64) := by norm_num
  refine ⟨⟨1, 0, by decide, by decide, by decide, by norm_num⟩, ?_, ?_⟩
  · intro exact
    exact absurd exact.fits.2 (by rw [scaled]; decide)
  · apply Set.eq_empty_of_forall_notMem
    rintro v ⟨rng, -, accepted⟩
    have zero : threshold ⟨fun _ rng => (false, rng), fun _ => 0⟩ (.finite 1) = 0 :=
      if_neg outside
    have less : ¬rng.next.1 < (0 : U64) := BitVec.not_lt_zero
    simp only [genBool, zero, less, decide_false] at accepted
    exact absurd accepted (by decide)

end ChanceThreshold
