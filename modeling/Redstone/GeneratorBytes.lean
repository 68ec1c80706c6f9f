import Mathlib.Data.Fintype.Vector
import Mathlib.Logic.Function.Iterate
import Redstone.ByteWindows
import Redstone.Generators
import Redstone.WordCounts

/-!
# Bytes of a generator

Both generators fill a buffer with the bytes of their draws, and the last draw is made even
if no byte of it is needed. The bytes of four draws spell the state of a xoshiro generator,
and each way to spell it comes from one state: up to 32 bytes are uniform over the seeds.
-/

namespace GeneratorBytes

open MachineWords Generators ByteWindows WordCounts Function

variable {G : Type}

/-- `fill_bytes` of both generators, for a buffer of any length. -/
def fillBytes (next : G → U64 × G) : (size : Nat) → G → List Byte × G
  | size + 8, rng =>
    let (block, rng) := next rng
    let (rest, rng) := fillBytes next size rng
    (bytesOf block ++ rest, rng)
  | size, rng =>
    let (block, rng) := next rng
    ((bytesOf block).take size, rng)

/-- The constructor of `xoshiro256_star_star` from 32 bytes. -/
def ofSeed (seed : List Byte) : Xoshiro :=
  ⟨ofBytes (seed.take 8), ofBytes ((seed.drop 8).take 8), ofBytes ((seed.drop 16).take 8),
    ofBytes ((seed.drop 24).take 8)⟩

/-! ## What is filled in -/

def drawn (next : G → U64 × G) : (count : Nat) → G → List U64
  | 0, _ => []
  | count + 1, rng => (next rng).1 :: drawn next count (next rng).2

/-- The generator after some draws. -/
def later (next : G → U64 × G) (count : Nat) (rng : G) : G := (fun rng => (next rng).2)^[count] rng

theorem later_succ (next : G → U64 × G) (count : Nat) (rng : G) :
    later next (count + 1) rng = later next count (next rng).2 := rfl

theorem drawn_add (next : G → U64 × G) (first second : Nat) (rng : G) :
    drawn next (first + second) rng =
      drawn next first rng ++ drawn next second (later next first rng) := by
  induction first generalizing rng with
  | zero => rw [Nat.zero_add]; rfl
  | succ first ih =>
    rw [Nat.succ_add, drawn, drawn, ih, later_succ]
    rfl

theorem length_spelled (words : List U64) : (words.flatMap bytesOf).length = 8 * words.length := by
  induction words with
  | nil => rfl
  | cons word rest ih =>
    rw [List.flatMap_cons, List.length_append, length_bytesOf, ih, List.length_cons]
    omega

theorem length_drawn (next : G → U64 × G) (count : Nat) (rng : G) :
    (drawn next count rng).length = count := by
  induction count generalizing rng with
  | zero => rfl
  | succ count ih => rw [drawn, List.length_cons, ih]

theorem take_block (block : U64) (rest : List Byte) (size : Nat) :
    (bytesOf block ++ rest).take (size + 8) = bytesOf block ++ rest.take size := by
  have whole : (bytesOf block).length ≤ size + 8 := by
    rw [length_bytesOf]
    omega
  rw [List.take_append, List.take_of_length_le whole, length_bytesOf, Nat.add_sub_cancel]

/-- The bytes are those of as many draws as begin in the buffer, and of one more if it ends
with a whole one. -/
theorem fillBytes_eq (next : G → U64 × G) (size : Nat) (rng : G) :
    fillBytes next size rng =
      (((drawn next (size / 8 + 1) rng).flatMap bytesOf).take size,
        later next (size / 8 + 1) rng) := by
  induction size, rng using fillBytes.induct next with
  | case1 size rng block after here rest last filled ih =>
    have count : (size + 8) / 8 + 1 = size / 8 + 1 + 1 := by omega
    rw [count, drawn, later_succ, here, List.flatMap_cons, take_block, fillBytes, here]
    simp only [ih]
  | case2 size rng short block after here =>
    have small : size / 8 = 0 := by
      by_contra large
      exact short (size - 8) (by omega)
    rw [fillBytes, here, small, later_succ, here]
    · simp only [drawn, here, List.flatMap_cons, List.flatMap_nil, List.append_nil]
      rfl
    · exact short

/-- A shorter buffer gets the first bytes of a longer one. -/
theorem fill_take (next : G → U64 × G) {short long : Nat} (le : short ≤ long) (rng : G) :
    (fillBytes next long rng).1.take short = (fillBytes next short rng).1 := by
  obtain ⟨more, count⟩ := Nat.exists_eq_add_of_le
    (Nat.add_le_add_right (Nat.div_le_div_right (c := 8) le) 1)
  have covered : short ≤ ((drawn next (short / 8 + 1) rng).flatMap bytesOf).length := by
    rw [length_spelled, length_drawn]
    omega
  rw [fillBytes_eq, fillBytes_eq, List.take_take, Nat.min_eq_left le, count, drawn_add,
    List.flatMap_append, List.take_append_of_le_length covered]

theorem length_fill (next : G → U64 × G) (size : Nat) (rng : G) :
    (fillBytes next size rng).1.length = size := by
  have covered : size ≤ ((drawn next (size / 8 + 1) rng).flatMap bytesOf).length := by
    rw [length_spelled, length_drawn]
    omega
  rw [fillBytes_eq, List.length_take, Nat.min_eq_left covered]

/-! ## The bytes of a state -/

/-- The bytes of the four words. -/
def spelled (x : Xoshiro) : List Byte :=
  bytesOf x.s0 ++ (bytesOf x.s1 ++ (bytesOf x.s2 ++ bytesOf x.s3))

theorem length_spelled_state (x : Xoshiro) : (spelled x).length = 32 := by
  simp [spelled]

theorem spelled_ofSeed {seed : List Byte} (size : seed.length = 32) :
    spelled (ofSeed seed) = seed := by
  have block : ∀ i, i + 8 ≤ 32 →
      bytesOf (ofBytes ((seed.drop i).take 8)) = (seed.drop i).take 8 := by
    intro i inside
    apply bytesOf_ofBytes
    rw [List.length_take, List.length_drop, size]
    omega
  have last : (seed.drop 24).take 8 = seed.drop 24 := by
    apply List.take_of_length_le
    rw [List.length_drop, size]
  have join : ∀ i, (seed.drop i).take 8 ++ seed.drop (i + 8) = seed.drop i := by
    intro i
    rw [← List.drop_drop, List.take_append_drop]
  calc spelled (ofSeed seed)
      = seed.take 8 ++ ((seed.drop 8).take 8 ++ ((seed.drop 16).take 8 ++
          (seed.drop 24).take 8)) := by
        have first := block 0 (by decide)
        rw [List.drop_zero] at first
        rw [spelled, ofSeed, first, block 8 (by decide), block 16 (by decide),
          block 24 (by decide)]
    _ = seed.take 8 ++ ((seed.drop 8).take 8 ++ seed.drop 16) := by rw [last, join 16]
    _ = seed.take 8 ++ seed.drop 8 := by rw [join 8]
    _ = seed := List.take_append_drop 8 seed

theorem spelled_injective : Injective spelled := by
  intro x y same
  have length : ∀ a b : U64, (bytesOf a).length = (bytesOf b).length := by
    intro a b
    rw [length_bytesOf, length_bytesOf]
  obtain ⟨first, rest⟩ := List.append_inj same (length _ _)
  obtain ⟨second, rest⟩ := List.append_inj rest (length _ _)
  obtain ⟨third, fourth⟩ := List.append_inj rest (length _ _)
  obtain ⟨a, b, c, d⟩ := x
  obtain ⟨a', b', c', d'⟩ := y
  rw [Xoshiro.mk.injEq]
  exact ⟨bytesOf_injective first, bytesOf_injective second, bytesOf_injective third,
    bytesOf_injective fourth⟩

/-- 32 bytes spell the state that four draws make. -/
theorem fill_state (next : G → U64 × G) (rng : G) :
    (fillBytes next 32 rng).1 = spelled (seedFrom next rng).1 := by
  have four : (drawn next 4 rng).flatMap bytesOf = spelled (seedFrom next rng).1 := by
    simp [drawn, seedFrom, spelled]
  have covered : 32 ≤ ((drawn next 4 rng).flatMap bytesOf).length := by
    rw [length_spelled, length_drawn]
  have exact : ((drawn next 4 rng).flatMap bytesOf).length = 32 := by
    rw [length_spelled, length_drawn]
  rw [fillBytes_eq, show 32 / 8 + 1 = 4 + 1 from rfl, drawn_add, List.flatMap_append,
    List.take_append_of_le_length covered, List.take_of_length_le exact.le, four]

/-- Seeding with bytes of a generator is seeding with its draws. -/
theorem ofSeed_fill (next : G → U64 × G) (rng : G) :
    ofSeed (fillBytes next 32 rng).1 = (seedFrom next rng).1 := by
  apply spelled_injective
  rw [spelled_ofSeed (length_fill next 32 rng), fill_state]

/-! ## Uniform bytes -/

theorem seedFrom_surjective : Surjective fun x => (seedFrom Xoshiro.next x).1 := by
  let bytes : Xoshiro → List.Vector Byte 32 := fun x => ⟨spelled x, length_spelled_state x⟩
  have finite : Finite Xoshiro := Finite.of_injective bytes fun _ _ same =>
    spelled_injective (congrArg Subtype.val same)
  exact Finite.injective_iff_surjective.mp Xoshiro.seedFrom_injective

/-- Of all states, equally many fill a buffer of up to 32 bytes in each way, after any number
of draws. -/
theorem fill_uniform (past : Nat) {bytes : List Byte} (short : bytes.length ≤ 32) :
    {x : Xoshiro | (fillBytes Xoshiro.next bytes.length (later Xoshiro.next past x)).1 =
      bytes}.ncard = 256 ^ (32 - bytes.length) := by
  let filled : Xoshiro → List Byte := fun x =>
    (fillBytes Xoshiro.next 32 (later Xoshiro.next past x)).1
  have permuted : Bijective (later Xoshiro.next past) := Xoshiro.advance_bijective.iterate past
  have injective : Injective filled := by
    intro x y same
    simp only [filled, fill_state] at same
    exact permuted.1 (Xoshiro.seedFrom_injective (spelled_injective same))
  have image : filled '' {x | (fillBytes Xoshiro.next bytes.length
      (later Xoshiro.next past x)).1 = bytes} =
      {seed | seed.length = 32 ∧ seed.take bytes.length = bytes} := by
    ext seed
    constructor
    · rintro ⟨x, begins, rfl⟩
      exact ⟨length_fill _ 32 _, (fill_take _ short _).trans begins⟩
    · rintro ⟨size, begins⟩
      obtain ⟨state, seeded⟩ := seedFrom_surjective (ofSeed seed)
      obtain ⟨x, rfl⟩ := permuted.2 state
      have fills : filled x = seed := by
        change (fillBytes Xoshiro.next 32 (later Xoshiro.next past x)).1 = seed
        rw [fill_state, show (seedFrom Xoshiro.next _).1 = ofSeed seed from seeded,
          spelled_ofSeed size]
      refine ⟨x, ?_, fills⟩
      change (fillBytes Xoshiro.next bytes.length (later Xoshiro.next past x)).1 = bytes
      rw [← fill_take _ short, show (fillBytes Xoshiro.next 32 _).1 = seed from fills, begins]
  rw [← Set.ncard_image_of_injective _ injective, image, ncard_extensions short]
  rfl

/-- Two bytes of the thousandth draw. -/
theorem fill_uniform_two :
    {x : Xoshiro | (fillBytes Xoshiro.next 2 (later Xoshiro.next 999 x)).1 = [7, 1]}.ncard =
      256 ^ 30 :=
  @fill_uniform 999 [7, 1] (by decide)

end GeneratorBytes
