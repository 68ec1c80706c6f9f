import Redstone.FaultSampling
import Redstone.WordCounts

/-!
# Ranges and shares of uniform samples

A sample lies in its range exactly if its distance from the lower bound, taken modulo
2^64, is below the width. This holds for signed and unsigned bounds alike, so one lemma
about remainders serves every instance of `gen_range`.
-/

namespace UniformSampling

open MachineWords Generators FaultSampling Function

/-- The draws for which a sampling returns `x`. -/
def drawsOf (sample : Xoshiro → Option (U64 × Xoshiro)) (x : U64) : Set U64 :=
  {v | ∃ rng after, rng.next.1 = v ∧ sample rng = some (x, after)}

/-- Every sample takes one draw and lies inside, and the `w` values inside share the draws
evenly, up to one. -/
structure UniformOn (sample : Xoshiro → Option (U64 × Xoshiro)) (inside : U64 → Prop)
    (w : Nat) : Prop where
  lands : ∀ rng, ∃ x, sample rng = some (x, rng.next.2) ∧ inside x
  shares : ∀ x, inside x →
    (drawsOf sample x).ncard = 2 ^ 64 / w ∨ (drawsOf sample x).ncard = 2 ^ 64 / w + 1

/-- Every word is the draw of some generator. -/
theorem next_surjective (v : U64) : ∃ rng : Xoshiro, rng.next.1 = v := by
  obtain ⟨word, rfl⟩ := (Finite.injective_iff_surjective.mp scramble_injective) v
  exact ⟨⟨0, word, 0, 0⟩, rfl⟩

theorem sampleUniform_eq {first last : U64} (nonempty : last - first ≠ 0) (rng : Xoshiro) :
    sampleUniform rng first last = some (first + rng.next.1 % (last - first), rng.next.2) :=
  if_neg nonempty

/-- A value is drawn by the words whose remainder is its distance from the lower bound. -/
theorem drawsOf_sampleUniform {first last : U64} (nonempty : last - first ≠ 0) (x : U64) :
    drawsOf (fun rng => sampleUniform rng first last) x =
      {v | v.toNat % (last - first).toNat = (x - first).toNat} := by
  have distance : ∀ v : U64, first + v % (last - first) = x ↔
      v.toNat % (last - first).toNat = (x - first).toNat := by
    intro v
    rw [← BitVec.toNat_umod, BitVec.toNat_inj]
    constructor
    · rintro rfl
      rw [BitVec.add_comm, BitVec.add_sub_cancel]
    · intro same
      rw [same, BitVec.add_comm, BitVec.sub_add_cancel]
  ext v
  rw [drawsOf, Set.mem_ofPred_eq, Set.mem_ofPred_eq, ← distance]
  constructor
  · rintro ⟨rng, after, rfl, drawn⟩
    rw [sampleUniform_eq nonempty] at drawn
    exact (Prod.mk.inj (Option.some.inj drawn)).1
  · intro same
    obtain ⟨rng, drawn⟩ := next_surjective v
    refine ⟨rng, rng.next.2, drawn, ?_⟩
    rw [sampleUniform_eq nonempty, drawn, same]

/-- The rule for all instances: membership is a matter of the distance. -/
theorem uniformOn_sampleUniform {first last : U64} {inside : U64 → Prop} {w : Nat}
    (width : (last - first).toNat = w) (positive : 0 < w)
    (distance : ∀ x, inside x ↔ (x - first).toNat < w) :
    UniformOn (fun rng => sampleUniform rng first last) inside w := by
  have nonempty : last - first ≠ 0 := by
    intro zero
    rw [zero] at width
    exact positive.ne width
  refine ⟨?_, ?_⟩
  · intro rng
    refine ⟨_, sampleUniform_eq nonempty rng, (distance _).mpr ?_⟩
    rw [BitVec.add_comm, BitVec.add_sub_cancel, BitVec.toNat_umod, width]
    exact Nat.mod_lt _ positive
  · intro x member
    rw [drawsOf_sampleUniform nonempty, width,
      WordCounts.ncard_remainder ((distance x).mp member)]
    split
    · exact Or.inr rfl
    · exact Or.inl rfl

/-! ## Signed and unsigned bounds -/

theorem width_signed {first last : I64} (ordered : first.toInt < last.toInt) :
    (last - first).toNat = (last.toInt - first.toInt).toNat := by
  have below := first.isLt
  have below' := last.isLt
  simp only [BitVec.toInt_eq_toNat_cond, BitVec.toNat_sub] at *
  omega

theorem distance_signed {first last : I64} (ordered : first.toInt < last.toInt) (x : I64) :
    (first.toInt ≤ x.toInt ∧ x.toInt < last.toInt) ↔
      (x - first).toNat < (last.toInt - first.toInt).toNat := by
  have below := first.isLt
  have below' := last.isLt
  have below'' := x.isLt
  simp only [BitVec.toInt_eq_toNat_cond, BitVec.toNat_sub] at *
  omega

theorem width_unsigned {first last : U64} (ordered : first.toNat < last.toNat) :
    (last - first).toNat = last.toNat - first.toNat := by
  have below := last.isLt
  rw [BitVec.toNat_sub]
  omega

theorem distance_unsigned {first last : U64} (ordered : first.toNat < last.toNat) (x : U64) :
    (first.toNat ≤ x.toNat ∧ x.toNat < last.toNat) ↔
      (x - first).toNat < last.toNat - first.toNat := by
  have below := first.isLt
  have below' := last.isLt
  have below'' := x.isLt
  rw [BitVec.toNat_sub]
  omega

theorem uniformOn_long {first last : I64} (ordered : first.toInt < last.toInt) :
    UniformOn (fun rng => sampleUniformLong rng first last)
      (fun x => first.toInt ≤ x.toInt ∧ x.toInt < last.toInt)
      (last.toInt - first.toInt).toNat :=
  uniformOn_sampleUniform (width_signed ordered) (by omega) (distance_signed ordered)

theorem uniformOn_unsigned {first last : U64} (ordered : first.toNat < last.toNat) :
    UniformOn (fun rng => sampleUniform rng first last)
      (fun x => first.toNat ≤ x.toNat ∧ x.toNat < last.toNat) (last.toNat - first.toNat) :=
  uniformOn_sampleUniform (width_unsigned ordered) (by omega) (distance_unsigned ordered)

/-- The end of a latency range is one more than the maximum. -/
theorem end_toInt {last : I64} (room : last.toInt < 2 ^ 63 - 1) :
    (last + 1).toInt = last.toInt + 1 := by
  have below := last.isLt
  have one : (1 : I64).toNat = 1 := rfl
  simp only [BitVec.toInt_eq_toNat_cond, BitVec.toNat_add, one] at *
  omega

theorem uniformOn_latency {o : FaultOptions} (ordered : o.minLatency.toInt ≤ o.maxLatency.toInt)
    (room : o.maxLatency.toInt < 2 ^ 63 - 1) :
    UniformOn o.latency (fun x => o.minLatency.toInt ≤ x.toInt ∧ x.toInt ≤ o.maxLatency.toInt)
      (o.maxLatency.toInt - o.minLatency.toInt + 1).toNat := by
  have next := end_toInt room
  have uniform := @uniformOn_long o.minLatency (o.maxLatency + 1) (by omega)
  have width : o.maxLatency.toInt + 1 - o.minLatency.toInt =
      o.maxLatency.toInt - o.minLatency.toInt + 1 := by omega
  simp only [next, width, Int.lt_add_one_iff] at uniform
  exact uniform

/-- For all signed and all unsigned bounds in order, negative ones and widths of 2^63 and
more included, every draw gives a sample in the range and the values of the range share the
2^64 draws as evenly as the remainder allows; so latencies lie between their limits. -/
theorem gen_range_uniform :
    (∀ first last : I64, first.toInt < last.toInt →
      UniformOn (fun rng => sampleUniformLong rng first last)
        (fun x => first.toInt ≤ x.toInt ∧ x.toInt < last.toInt)
        (last.toInt - first.toInt).toNat) ∧
    (∀ first last : U64, first.toNat < last.toNat →
      UniformOn (fun rng => sampleUniform rng first last)
        (fun x => first.toNat ≤ x.toNat ∧ x.toNat < last.toNat)
        (last.toNat - first.toNat)) ∧
    ∀ o : FaultOptions, o.minLatency.toInt ≤ o.maxLatency.toInt →
      o.maxLatency.toInt < 2 ^ 63 - 1 →
      UniformOn o.latency
        (fun x => o.minLatency.toInt ≤ x.toInt ∧ x.toInt ≤ o.maxLatency.toInt)
        (o.maxLatency.toInt - o.minLatency.toInt + 1).toNat :=
  ⟨fun _ _ => uniformOn_long, fun _ _ => uniformOn_unsigned, fun _ => uniformOn_latency⟩

/-- The widest signed range: all values but the largest, so each has one or two draws. -/
theorem gen_range_uniform_widest :
    UniformOn (fun rng => sampleUniformLong rng (BitVec.intMin 64) (BitVec.intMax 64))
      (fun x => (BitVec.intMin 64).toInt ≤ x.toInt ∧ x.toInt < (BitVec.intMax 64).toInt)
      (2 ^ 64 - 1) :=
  gen_range_uniform.1 (BitVec.intMin 64) (BitVec.intMax 64) (by decide)

end UniformSampling
