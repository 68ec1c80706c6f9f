import Mathlib.Data.Rat.Floor
import Redstone.Generators

/-!
# Sampling of packet faults

Drops, latencies and replay counts are drawn from the generator of one pipe. A remainder
by a zero width traps and the replay loop may not end, so both are `none`; the loop is
cut off by a fuel that its results do not depend on. What the source leaves to the
standard library and to the host stands in `Host`.
-/

namespace FaultSampling

open MachineWords Generators

/-- A double: the rational it denotes, an infinity or a NaN. -/
inductive Double where
  | finite (value : ℚ)
  | infinity (negative : Bool)
  | nan
  deriving DecidableEq

/-- `std::bernoulli_distribution` applied to a generator, and the result of converting to
`uint64_t` the product of `2 ^ 64` with a double when it does not fit. -/
structure Host where
  bernoulli : Double → Xoshiro → Bool × Xoshiro
  outOfRange : Double → U64

/-- `net_fault_options`, latencies in nanoseconds. -/
structure FaultOptions where
  minLatency : I64
  maxLatency : I64
  pDrop : Double
  pReplay : Double
  deriving DecidableEq

def defaultFaults : FaultOptions := ⟨0, 0, .finite 0, .finite 0⟩

/-- `sample_uniform<uint64_t>`: the remainder of a draw by the width. -/
def sampleUniform (rng : Xoshiro) (first last : U64) : Option (U64 × Xoshiro) :=
  let width := last - first
  let (v, rng) := rng.next
  if width = 0 then none else some (first + v % width, rng)

/-- `sample_uniform<long>`: the bounds become `uint64_t` and the sample `long` again. -/
def sampleUniformLong (rng : Xoshiro) (first last : I64) : Option (I64 × Xoshiro) :=
  sampleUniform rng first last

/-- `gen_range` on durations samples their counts. -/
def genRange (rng : Xoshiro) (first last : I64) : Option (I64 × Xoshiro) :=
  sampleUniformLong rng first last

/-- The conversion truncates; scaling by a power of two is exact. -/
def threshold (host : Host) (p : Double) : U64 :=
  match p with
  | .finite q =>
    if -1 < q * 2 ^ 64 ∧ q * 2 ^ 64 < 2 ^ 64 then BitVec.ofNat 64 (q * 2 ^ 64).floor.toNat
    else host.outOfRange p
  | _ => host.outOfRange p

def genBool (host : Host) (rng : Xoshiro) (p : Double) : Bool × Xoshiro :=
  let threshold := threshold host p
  let (v, rng) := rng.next
  (if threshold = BitVec.allOnes 64 then true else v < threshold, rng)

namespace FaultOptions

def latency (o : FaultOptions) (rng : Xoshiro) : Option (I64 × Xoshiro) :=
  genRange rng o.minLatency (o.maxLatency + 1)

def shouldDrop (o : FaultOptions) (host : Host) (rng : Xoshiro) : Bool × Xoshiro :=
  host.bernoulli o.pDrop rng

def replayCount (o : FaultOptions) (host : Host) :
    (fuel : Nat) → (rng : Xoshiro) → (n : Nat) → Option (Nat × Xoshiro)
  | 0, _, _ => none
  | fuel + 1, rng, n =>
    let (again, rng) := genBool host rng o.pReplay
    if again then o.replayCount host fuel rng (n + 1) else some (n, rng)

/-- More fuel changes no result of the replay loop. -/
theorem replayCount_more {o : FaultOptions} {host : Host} {fuel : Nat} (more : Nat) :
    ∀ {rng : Xoshiro} {n : Nat} {result : Nat × Xoshiro},
      o.replayCount host fuel rng n = some result →
      o.replayCount host (fuel + more) rng n = some result := by
  induction fuel with
  | zero =>
    intro rng n result ended
    cases ended
  | succ fuel ih =>
    intro rng n result ended
    rw [Nat.succ_add]
    rcases draw : genBool host rng o.pReplay with ⟨again, after⟩
    cases again with
    | true =>
      simp only [replayCount, draw, if_true] at ended ⊢
      exact ih ended
    | false =>
      simp only [replayCount, draw, Bool.false_eq_true, if_false] at ended ⊢
      exact ended

/-- Two runs of the replay loop that end agree, whatever their fuel. -/
theorem replayCount_unique {o : FaultOptions} {host : Host} {fuel other : Nat} {rng : Xoshiro}
    {n : Nat} {a b : Nat × Xoshiro} (first : o.replayCount host fuel rng n = some a)
    (second : o.replayCount host other rng n = some b) : a = b := by
  have extended := replayCount_more other first
  have same := replayCount_more fuel second
  rw [Nat.add_comm, extended] at same
  exact Option.some.inj same

end FaultOptions

end FaultSampling
