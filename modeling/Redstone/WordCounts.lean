import Mathlib.Data.BitVec
import Mathlib.Data.FinEnum
import Mathlib.Data.Int.CardIntervalMod
import Mathlib.Data.Set.Card
import Mathlib.Logic.Equiv.Fin.Basic
import Mathlib.SetTheory.Cardinal.Finite

/-!
# Counting machine words

The words with a property of their value are counted as numbers below `2 ^ w`: those
below a bound, those with a given remainder and those with given low bits. A permutation
of the words changes no count.
-/

namespace WordCounts

open Function

variable {w : Nat}

theorem ncard_words (p : Nat → Prop) [DecidablePred p] :
    {v : BitVec w | p v.toNat}.ncard = Nat.count p (2 ^ w) := by
  have image : BitVec.toNat '' {v : BitVec w | p v.toNat} =
      ((Finset.range (2 ^ w)).filter p : Finset Nat) := by
    ext n
    simp only [Set.mem_image, Set.mem_ofPred_eq, Finset.coe_filter, Finset.mem_range]
    constructor
    · rintro ⟨v, holds, rfl⟩
      exact ⟨v.isLt, holds⟩
    · rintro ⟨small, holds⟩
      refine ⟨BitVec.ofNat w n, ?_⟩
      rw [BitVec.toNat_ofNat, Nat.mod_eq_of_lt small]
      exact ⟨holds, rfl⟩
  rw [← Set.ncard_image_of_injective _ BitVec.toNat_injective, image, Set.ncard_coe_finset,
    Nat.count_eq_card_filter_range]

theorem ncard_below {t : Nat} (fits : t ≤ 2 ^ w) : {v : BitVec w | v.toNat < t}.ncard = t := by
  obtain ⟨rest, whole⟩ := Nat.exists_eq_add_of_le fits
  have above : Nat.count (fun n => t + n < t) rest = 0 :=
    Nat.count_iff_forall_not.mpr fun n _ less => absurd less (by omega)
  rw [ncard_words (fun n => n < t), whole, Nat.count_add, above, Nat.add_zero]
  exact Nat.count_of_forall fun _ less => less

/-- Each remainder by `k` is taken by `2 ^ w / k` words, and by one more if it is below
the remainder of `2 ^ w` itself. -/
theorem ncard_remainder {k r : Nat} (small : r < k) :
    {v : BitVec w | v.toNat % k = r}.ncard =
      2 ^ w / k + if r < 2 ^ w % k then 1 else 0 := by
  have same : {v : BitVec w | v.toNat % k = r} = {v : BitVec w | v.toNat ≡ r [MOD k]} := by
    ext v
    rw [Set.mem_ofPred_eq, Set.mem_ofPred_eq, Nat.ModEq, Nat.mod_eq_of_lt small]
  rw [same, ncard_words (fun n => n ≡ r [MOD k]),
    Nat.count_modEq_card _ (Nat.zero_lt_of_lt small), Nat.mod_eq_of_lt small]

/-- Words are cut off to each shorter word equally often. -/
theorem ncard_setWidth {k : Nat} (shorter : k ≤ w) (v : BitVec k) :
    {z : BitVec w | z.setWidth k = v}.ncard = 2 ^ (w - k) := by
  have same : {z : BitVec w | z.setWidth k = v} =
      {z : BitVec w | z.toNat % 2 ^ k = v.toNat} := by
    ext z
    rw [Set.mem_ofPred_eq, Set.mem_ofPred_eq, ← BitVec.toNat_inj, BitVec.toNat_setWidth]
  have whole : 2 ^ w = 2 ^ (w - k) * 2 ^ k := by
    rw [← Nat.pow_add, Nat.sub_add_cancel shorter]
  rw [same, ncard_remainder v.isLt, whole, Nat.mul_mod_left, if_neg (Nat.not_lt_zero _),
    Nat.mul_div_cancel _ (Nat.two_pow_pos k), Nat.add_zero]

theorem ncard_preimage {f : BitVec w → BitVec w} (injective : Injective f)
    (s : Set (BitVec w)) : {v | f v ∈ s}.ncard = s.ncard := by
  have surjective : Surjective f := Finite.injective_iff_surjective.mp injective
  refine Set.ncard_preimage_of_injective_subset_range injective ?_
  rw [surjective.range_eq]
  exact Set.subset_univ s

/-! ## Lists of words -/

theorem ncard_lists (k : Nat) :
    {words : List (BitVec w) | words.length = k}.ncard = (2 ^ w) ^ k := by
  calc {words : List (BitVec w) | words.length = k}.ncard
      = Nat.card (List.Vector (BitVec w) k) := rfl
    _ = Nat.card (Fin k → BitVec w) := Nat.card_congr (Equiv.vectorEquivFin _ _)
    _ = Nat.card (BitVec w) ^ k := by rw [Nat.card_fun, Nat.card_fin]
    _ = (2 ^ w) ^ k := by rw [Nat.card_congr BitVec.equivFin.toEquiv, Nat.card_fin]

/-- How many lists begin with given words. -/
theorem ncard_extensions {first : List (BitVec w)} {n : Nat} (short : first.length ≤ n) :
    {words : List (BitVec w) | words.length = n ∧ words.take first.length = first}.ncard =
      (2 ^ w) ^ (n - first.length) := by
  have image : (first ++ ·) '' {rest : List (BitVec w) | rest.length = n - first.length} =
      {words | words.length = n ∧ words.take first.length = first} := by
    ext words
    constructor
    · rintro ⟨rest, length, rfl⟩
      have length' : rest.length = n - first.length := length
      refine ⟨?_, List.take_left' rfl⟩
      rw [List.length_append, length']
      omega
    · rintro ⟨length, begins⟩
      refine ⟨words.drop first.length, ?_, ?_⟩
      · change (words.drop first.length).length = _
        rw [List.length_drop, length]
      · have whole := List.take_append_drop first.length words
        rwa [begins] at whole
  rw [← image, Set.ncard_image_of_injective _ (List.append_right_injective first), ncard_lists]

end WordCounts
