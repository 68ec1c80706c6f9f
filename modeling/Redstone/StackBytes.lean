import Redstone.ParseAddr

/-!
# What `parse_addr` reads of the stack

The local variable holds the program's bytes at its front and what the stack held before
behind them. Each address family looks at some offsets of it; where these end before the
program's bytes do, the result is determined by those. The length is never compared with
what a `sockaddr_in` needs, and the scan of a path without a NUL runs past the length.
-/

namespace StackBytes

open MachineWords SocketAddr ParseAddr

/-- The indices of `sun_path` that the loop looks at, with `left` of them to go. -/
def scanned (sunPath : Nat → Byte) (destLen : Nat) : (left : Nat) → List Nat
  | 0 => []
  | left + 1 =>
    let i := destLen - (left + 1)
    let c := sunPath i
    if c = 0 then [i]
    else if i = destLen - 1 then [i]
    else i :: scanned sunPath destLen left

/-- The offsets of the local variable that the switch looks at: the family, and what its
case reads. -/
def offsets (storage : Nat → Byte) (destLen : Nat) : List Nat :=
  [0, 1] ++
    if word storage 0 = AF_INET then [4, 5, 6, 7, 2, 3]
    else if word storage 0 = AF_UNIX then
      let sunPath := fun i => storage (sunPathOffset + i)
      (scanned sunPath destLen (destLen - sunPathOffset)).map (sunPathOffset + ·)
    else []

/-- The offsets that a call looks at; none when it returns before the switch. -/
def inspected (readMemory : ReadMemory) (stack : Stack) (destAddr : U64) (destLen : Nat) :
    List Nat :=
  if storageSize < destLen ∨ destLen < 2 then []
  else
    let (res, dest) := readMemory destAddr (List.replicate destLen 0)
    if res < 0 then []
    else offsets (fill stack dest) destLen

/-! ## The offsets are all that matters -/

theorem first_scanned (sunPath : Nat → Byte) (destLen left : Nat) :
    destLen - (left + 1) ∈ scanned sunPath destLen (left + 1) := by
  rw [scanned]
  split
  · exact List.mem_singleton_self _
  · split
    · exact List.mem_singleton_self _
    · exact List.mem_cons_self

theorem scan_congr {sunPath sunPath' : Nat → Byte} {destLen : Nat} :
    ∀ {left : Nat} {path : List Byte},
      (∀ i ∈ scanned sunPath destLen left, sunPath i = sunPath' i) →
      scanPath sunPath destLen left path = scanPath sunPath' destLen left path := by
  intro left
  induction left with
  | zero =>
    intro path agree
    rfl
  | succ left ih =>
    intro path agree
    have here := agree _ (first_scanned sunPath destLen left)
    simp only [scanPath, ← here]
    by_cases stop : sunPath (destLen - (left + 1)) = 0
    · rw [if_pos stop, if_pos stop]
    · by_cases last : destLen - (left + 1) = destLen - 1
      · rw [if_neg stop, if_neg stop, if_pos last, if_pos last]
      · rw [if_neg stop, if_neg stop, if_neg last, if_neg last]
        apply ih
        intro i looked
        apply agree
        simp only [scanned, if_neg stop, if_neg last]
        exact List.mem_cons_of_mem _ looked

/-- Local variables that agree where the switch looks give the same result. -/
theorem addrOf_congr {storage storage' : Nat → Byte} {destLen : Nat}
    (agree : ∀ k ∈ offsets storage destLen, storage k = storage' k) :
    addrOf storage destLen = addrOf storage' destLen := by
  have zero : storage 0 = storage' 0 := agree 0 (by simp [offsets])
  have one : storage 1 = storage' 1 := agree 1 (by simp [offsets])
  have family : word storage 0 = word storage' 0 := by
    simp only [word, zero, one, Nat.zero_add]
  by_cases inet : word storage 0 = AF_INET
  · have rest : ∀ k ∈ [4, 5, 6, 7, 2, 3], storage k = storage' k := by
      intro k looked
      apply agree
      rw [offsets, if_pos inet]
      exact List.mem_append_right _ looked
    have port : word storage 2 = word storage' 2 := by
      rw [word, rest 2 (by decide), rest 3 (by decide), word]
    have octets : (Vector.ofFn fun k : Fin 4 => storage (4 + k)) =
        Vector.ofFn fun k : Fin 4 => storage' (4 + k) := by
      congr 1
      funext k
      apply rest
      have small := k.isLt
      simp only [List.mem_cons, List.not_mem_nil]
      omega
    rw [addrOf, if_pos inet, addrOf, if_pos (family ▸ inet), port, octets]
  · by_cases unix : word storage 0 = AF_UNIX
    · have scan : scanPath (fun i => storage (sunPathOffset + i)) destLen
          (destLen - sunPathOffset) [] = scanPath (fun i => storage' (sunPathOffset + i)) destLen
            (destLen - sunPathOffset) [] := by
        apply scan_congr
        intro i looked
        apply agree
        rw [offsets, if_neg inet, if_pos unix]
        exact List.mem_append_right _ (List.mem_map_of_mem looked)
      rw [addrOf, if_neg inet, if_pos unix, addrOf, if_neg (family ▸ inet),
        if_pos (family ▸ unix)]
      dsimp only
      rw [scan]
    · rw [addrOf, if_neg inet, if_neg unix, addrOf, if_neg (family ▸ inet),
        if_neg (family ▸ unix)]

theorem fill_inside {dest : List Byte} {k : Nat} (inside : k < dest.length)
    (stack stack' : Stack) : fill stack dest k = fill stack' dest k := by
  rw [fill, fill, List.getElem?_eq_getElem inside]
  rfl

/-! ## How far the scan runs -/

/-- A NUL stops the scan: it looks at nothing behind it. -/
theorem scan_stops {sunPath : Nat → Byte} {destLen j : Nat} (nul : sunPath j = 0) :
    ∀ {left : Nat}, left ≤ destLen → destLen - left ≤ j → j < destLen →
      ∀ i ∈ scanned sunPath destLen left, i ≤ j := by
  intro left
  induction left with
  | zero =>
    intro _ start before
    omega
  | succ left ih =>
    intro within start before i looked
    by_cases stop : sunPath (destLen - (left + 1)) = 0
    · simp only [scanned, if_pos stop, List.mem_singleton] at looked
      rw [looked]
      exact start
    · have other : destLen - (left + 1) ≠ j := fun same => stop (same ▸ nul)
      have inner : ¬destLen - (left + 1) = destLen - 1 := by omega
      simp only [scanned, if_neg stop, if_neg inner, List.mem_cons] at looked
      rcases looked with rfl | later
      · exact start
      · exact ih (by omega) (by omega) before i later

/-- Up to the first NUL the scan looks at every index. -/
theorem scan_reaches {sunPath : Nat → Byte} {destLen j : Nat} :
    ∀ {left : Nat}, left ≤ destLen → destLen - left ≤ j → j < destLen →
      (∀ i, destLen - left ≤ i → i < j → sunPath i ≠ 0) → j ∈ scanned sunPath destLen left := by
  intro left
  induction left with
  | zero =>
    intro _ start before
    omega
  | succ left ih =>
    intro within start before text
    by_cases here : destLen - (left + 1) = j
    · rw [← here]
      exact first_scanned sunPath destLen left
    · have stop := text (destLen - (left + 1)) (Nat.le_refl _) (by omega)
      have inner : ¬destLen - (left + 1) = destLen - 1 := by omega
      simp only [scanned, if_neg stop, if_neg inner, List.mem_cons]
      exact Or.inr (ih (by omega) (by omega) before fun i first => text i (by omega))

/-! ## The bytes that were passed -/

/-- `sun_path` of the local variable. -/
def sunPath (stack : Stack) (dest : List Byte) (i : Nat) : Byte :=
  fill stack dest (sunPathOffset + i)

def family (dest : List Byte) : U16 := word (fill (fun _ => 0) dest) 0

/-- The bytes reach as far as their family is read: eight for IPv4, for a path up to a NUL
from the third byte of the path on, unless there is no path. -/
def Covers (dest : List Byte) : Prop :=
  (family dest = AF_INET → 8 ≤ dest.length) ∧
    (family dest = AF_UNIX → dest.length = 2 ∨ ∃ k, 4 ≤ k ∧ dest[k]? = some 0)

theorem family_eq {dest : List Byte} (long : 2 ≤ dest.length) (stack : Stack) :
    word (fill stack dest) 0 = family dest := by
  rw [family, word, word, fill_inside (by omega) stack fun _ => 0,
    fill_inside (by omega) stack fun _ => 0]

/-- Covering bytes keep the switch inside themselves. -/
theorem offsets_of_covers {dest : List Byte} (long : 2 ≤ dest.length) (covers : Covers dest)
    (stack : Stack) {k : Nat} (looked : k ∈ offsets (fill stack dest) dest.length) :
    k < dest.length := by
  obtain ⟨inet, unix⟩ := covers
  rw [offsets, family_eq long] at looked
  rcases List.mem_append.mp looked with head | rest
  · simp only [List.mem_cons, List.not_mem_nil, or_false] at head
    omega
  · by_cases ipv4 : family dest = AF_INET
    · have enough := inet ipv4
      rw [if_pos ipv4] at rest
      simp only [List.mem_cons, List.not_mem_nil, or_false] at rest
      omega
    · rw [if_neg ipv4] at rest
      by_cases path : family dest = AF_UNIX
      · rw [if_pos path] at rest
        obtain ⟨i, scans, rfl⟩ := List.mem_map.mp rest
        have skipped : sunPathOffset = 2 := rfl
        rcases unix path with two | ⟨k, fourth, nul⟩
        · rw [two] at scans
          cases scans
        · obtain ⟨inside, -⟩ := List.getElem?_eq_some_iff.mp nul
          have same : sunPathOffset + (k - 2) = k := by omega
          have stops : sunPath stack dest (k - 2) = 0 := by
            rw [sunPath, same, fill, nul, Option.getD_some]
          have reached := scan_stops stops (Nat.sub_le _ sunPathOffset) (by omega) (by omega) i
            scans
          omega
      · rw [if_neg path] at rest
        cases rest

/-- Bytes that do not cover what the switch reads let it look at the stack. -/
theorem covers_of_offsets {dest : List Byte} (long : 2 ≤ dest.length) (stack : Stack)
    (within : ∀ k ∈ offsets (fill stack dest) dest.length, k < dest.length) : Covers dest := by
  constructor
  · intro inet
    apply within 7
    rw [offsets, family_eq long, if_pos inet]
    decide
  · intro unix
    have other : ¬family dest = AF_INET := by
      rw [unix]
      decide
    by_cases two : dest.length = 2
    · exact Or.inl two
    by_cases nul : ∃ k, 4 ≤ k ∧ dest[k]? = some 0
    · exact Or.inr nul
    have skipped : sunPathOffset = 2 := rfl
    -- the first index at or after the end of the bytes
    have textual : ∀ i, dest.length - (dest.length - sunPathOffset) ≤ i →
        i < max 2 (dest.length - 2) → sunPath stack dest i ≠ 0 := by
      intro i start before zero
      have inside : sunPathOffset + i < dest.length := by omega
      refine nul ⟨sunPathOffset + i, by omega, ?_⟩
      rw [sunPath, fill, List.getElem?_eq_getElem inside, Option.getD_some] at zero
      rw [List.getElem?_eq_getElem inside, zero]
    have reached := scan_reaches (Nat.sub_le dest.length sunPathOffset) (by omega) (by omega)
      textual
    have beyond := within (sunPathOffset + max 2 (dest.length - 2)) (by
      rw [offsets, family_eq long, if_neg other, if_pos unix]
      exact List.mem_append_right _ (List.mem_map_of_mem reached))
    omega

/-- The result does not depend on what the local variable held, and the call looks at no
offset beyond the passed bytes or the structure. -/
def Oblivious (readMemory : ReadMemory) (destAddr : U64) (destLen : Nat) : Prop :=
  (∀ stack stack', (∀ i, storageSize ≤ i → stack i = stack' i) →
    parseAddr readMemory stack destAddr destLen =
      parseAddr readMemory stack' destAddr destLen) ∧
    ∀ stack, ∀ k ∈ inspected readMemory stack destAddr destLen, k < destLen ∧ k < storageSize

/-- The call returns before the switch, or the passed bytes cover what the switch reads. -/
def Determined (readMemory : ReadMemory) (destAddr : U64) (destLen : Nat) : Prop :=
  (storageSize < destLen ∨ destLen < 2) ∨
    (readMemory destAddr (List.replicate destLen 0)).1 < 0 ∨
      Covers (readMemory destAddr (List.replicate destLen 0)).2

/-- For every length and every passed bytes, `parse_addr` depends on these bytes only
exactly if it returns before the switch or they cover what their family reads. -/
theorem oblivious_iff {readMemory : ReadMemory} {destAddr : U64} {destLen : Nat}
    (length : (readMemory destAddr (List.replicate destLen 0)).2.length = destLen) :
    Oblivious readMemory destAddr destLen ↔ Determined readMemory destAddr destLen := by
  by_cases refused : storageSize < destLen ∨ destLen < 2
  · refine iff_of_true ⟨?_, ?_⟩ (Or.inl refused)
    · intro stack stack' _
      rw [parseAddr, if_pos refused, parseAddr, if_pos refused]
    · intro stack k looked
      rw [inspected, if_pos refused] at looked
      cases looked
  · rcases read : readMemory destAddr (List.replicate destLen 0) with ⟨res, dest⟩
    rw [read] at length
    subst length
    rw [Determined, or_iff_right refused, read]
    by_cases fails : res < 0
    · refine iff_of_true ⟨?_, ?_⟩ (Or.inl fails)
      · intro stack stack' _
        simp only [parseAddr, if_neg refused, read, if_pos fails]
      · intro stack k looked
        simp only [inspected, if_neg refused, read, if_pos fails] at looked
        cases looked
    · rw [or_iff_right fails]
      have looks : ∀ stack, inspected readMemory stack destAddr dest.length =
          offsets (fill stack dest) dest.length := by
        intro stack
        simp only [inspected, if_neg refused, read, if_neg fails]
      constructor
      · rintro ⟨-, within⟩
        refine covers_of_offsets (by omega) (fun _ => 0) fun k looked => ?_
        rw [← looks] at looked
        exact (within _ k looked).1
      · intro covers
        refine ⟨?_, ?_⟩
        · intro stack stack' _
          simp only [parseAddr, if_neg refused, read, if_neg fails]
          exact addrOf_congr fun k looked =>
            fill_inside (offsets_of_covers (by omega) covers stack looked) stack stack'
        · intro stack k looked
          rw [looks] at looked
          have inside := offsets_of_covers (by omega) covers stack looked
          omega

/-- The path `a` with its NUL, in four bytes: the scan begins behind them. -/
theorem short_path_reads_stack :
    ¬Oblivious (fun _ _ => (0, bytesOf AF_UNIX ++ [0x61, 0])) 0 4 := by
  rintro ⟨same, -⟩
  have zeros : parseAddr (fun _ _ => (0, bytesOf AF_UNIX ++ [0x61, 0])) (fun _ => 0) 0 4 =
      .ok (.unix ⟨[]⟩) := rfl
  have ones : parseAddr (fun _ _ => (0, bytesOf AF_UNIX ++ [0x61, 0]))
      (fun i => if i < storageSize then 1 else 0) 0 4 = .error EINVAL := rfl
  have impossible := same (fun _ => 0) (fun i => if i < storageSize then 1 else 0)
    (fun i outside => (if_neg (Nat.not_lt.mpr outside)).symm)
  rw [zeros, ones] at impossible
  cases impossible

/-- The same path, padded to the end of a `sockaddr_un`. -/
theorem padded_path_oblivious :
    Oblivious (fun _ _ => (0, bytesOf AF_UNIX ++ [0x61] ++ List.replicate 107 0)) 0 110 :=
  (oblivious_iff rfl).mpr
    (Or.inr (Or.inr ⟨fun inet => absurd inet (by decide), fun _ => Or.inr ⟨4, by decide, rfl⟩⟩))

end StackBytes
