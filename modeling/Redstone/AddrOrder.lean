import Mathlib.Order.Basic
import Redstone.ComparisonLaws
import Redstone.SocketAddr

/-!
# The order of socket addresses

Both kinds of address define their operators through `operator<`, and `std::variant`
compares the alternatives first. The IPv4 order does not test the octets in the other
direction before it looks at the ports: an address is before another one if its octets or
its port are smaller, which says that it is not above in the product of the two orders.
-/

namespace AddrOrder

open MachineWords SocketAddr ComparisonLaws

/-! ## IPv4 addresses -/

def ipv4Memcmp (lhs rhs : Ipv4Addr) : Int := memcmp lhs.octets.toList rhs.octets.toList

def ipv4Lt (lhs rhs : Ipv4Addr) : Bool :=
  if ipv4Memcmp lhs rhs < 0 then true else decide (lhs.port < rhs.port)

def ipv4Eq (lhs rhs : Ipv4Addr) : Bool :=
  decide (lhs.port = rhs.port) && decide (ipv4Memcmp lhs rhs = 0)

def ipv4Operators : Operators Ipv4Addr := throughLt ipv4Lt ipv4Eq

/-- One address has the smaller octets and the other one the smaller port. -/
def Ipv4Conflict (a b : Ipv4Addr) : Prop :=
  (ipv4Memcmp a b < 0 ∧ b.port < a.port) ∨ (ipv4Memcmp b a < 0 ∧ a.port < b.port)

instance (a b : Ipv4Addr) : Decidable (Ipv4Conflict a b) :=
  inferInstanceAs (Decidable ((_ ∧ _) ∨ (_ ∧ _)))

/-- Octets and port as numbers, compared componentwise. -/
def ipv4Key (addr : Ipv4Addr) : List Nat × Nat := (values addr.octets.toList, addr.port.toNat)

theorem length_octets (addr : Ipv4Addr) : addr.octets.toList.length = 4 := Vector.length_toList

theorem memcmp_neg_iff (a b : Ipv4Addr) :
    ipv4Memcmp a b < 0 ↔ (ipv4Key a).1 < (ipv4Key b).1 := by
  have sameLength : ¬a.octets.toList.length < b.octets.toList.length := by
    rw [length_octets, length_octets]
    exact Nat.lt_irrefl 4
  rw [ipv4Key, ipv4Key, values_lt_iff, or_iff_left (fun both => sameLength both.2)]
  rfl

theorem ipv4Lt_iff (a b : Ipv4Addr) : ipv4Lt a b = true ↔ ¬ipv4Key b ≤ ipv4Key a := by
  rw [Prod.le_def, not_and_or, not_le, not_le, ← memcmp_neg_iff, ipv4Lt]
  change _ ↔ _ ∨ a.port.toNat < b.port.toNat
  rw [← BitVec.lt_def]
  by_cases smaller : ipv4Memcmp a b < 0
  · rw [if_pos smaller]
    exact iff_of_true rfl (Or.inl smaller)
  · rw [if_neg smaller, decide_eq_true_iff, or_iff_right smaller]

theorem ipv4Eq_iff (a b : Ipv4Addr) : ipv4Eq a b = true ↔ ipv4Key a = ipv4Key b := by
  have octets : values a.octets.toList = values b.octets.toList ↔ ipv4Memcmp a b = 0 := by
    rw [values_injective.eq_iff, memcmp_eq_zero, length_octets, length_octets]
    exact and_iff_left rfl
  rw [ipv4Eq, Bool.and_eq_true, decide_eq_true_iff, decide_eq_true_iff, and_comm, ipv4Key,
    ipv4Key, Prod.mk.injEq, octets, BitVec.toNat_inj]

theorem ipv4Conflict_iff (a b : Ipv4Addr) :
    Ipv4Conflict a b ↔ IncompRel (· ≤ ·) (ipv4Key a) (ipv4Key b) := by
  have ports : ∀ x y : Ipv4Addr, x.port < y.port ↔ (ipv4Key x).2 < (ipv4Key y).2 :=
    fun _ _ => BitVec.lt_def
  rw [Ipv4Conflict, memcmp_neg_iff, memcmp_neg_iff, ports, ports, IncompRel, Prod.le_def,
    Prod.le_def, not_and_or, not_and_or, not_le, not_le, not_le, not_le]
  constructor
  · rintro (⟨octets, port⟩ | ⟨octets, port⟩)
    · exact ⟨Or.inr port, Or.inl octets⟩
    · exact ⟨Or.inl octets, Or.inr port⟩
  · rintro ⟨octets | port, octets' | port'⟩
    · exact absurd octets octets'.asymm
    · exact Or.inr ⟨octets, port'⟩
    · exact Or.inl ⟨octets', port⟩
    · exact absurd port port'.asymm

theorem ipv4_lawful_iff (a b c : Ipv4Addr) :
    Lawful ipv4Operators a b c ↔ ¬Ipv4Conflict a b := by
  rw [ipv4Conflict_iff]
  exact lawful_throughLt_iff ipv4Lt_iff ipv4Eq_iff a b c

/-! ## Unix addresses -/

/-- `std::string::compare`: the common length first, then the lengths. -/
def stringCompare (lhs rhs : List Byte) : Int :=
  if memcmp lhs rhs ≠ 0 then memcmp lhs rhs else (lhs.length : Int) - rhs.length

def unixLt (lhs rhs : UnixAddr) : Bool := decide (stringCompare lhs.path rhs.path < 0)

def unixEq (lhs rhs : UnixAddr) : Bool :=
  decide (lhs.path.length = rhs.path.length) && decide (memcmp lhs.path rhs.path = 0)

def unixOperators : Operators UnixAddr := throughLt unixLt unixEq

theorem unixLt_iff (a b : UnixAddr) :
    unixLt a b = true ↔ ¬values b.path ≤ values a.path := by
  rw [not_le, values_lt_iff, unixLt, decide_eq_true_iff, stringCompare]
  by_cases same : memcmp a.path b.path = 0
  · rw [if_neg (not_not.mpr same), same]
    omega
  · rw [if_pos same, or_iff_left (fun both => same both.1)]

theorem unixEq_iff (a b : UnixAddr) : unixEq a b = true ↔ values a.path = values b.path := by
  rw [unixEq, Bool.and_eq_true, decide_eq_true_iff, decide_eq_true_iff, values_injective.eq_iff,
    memcmp_eq_zero, and_comm]

theorem unix_lawful (a b c : UnixAddr) : Lawful unixOperators a b c :=
  (lawful_throughLt_iff unixLt_iff unixEq_iff a b c).mpr (not_incompRel_of_total _ _)

/-! ## Variants -/

/-- A comparison of variants: of the indices, and for the same index of the values. -/
def variantBy (index : Nat → Nat → Bool) (ipv4 : Ipv4Addr → Ipv4Addr → Bool)
    (unix : UnixAddr → UnixAddr → Bool) : Addr → Addr → Bool
  | .ipv4 lhs, .ipv4 rhs => ipv4 lhs rhs
  | .unix lhs, .unix rhs => unix lhs rhs
  | .ipv4 _, .unix _ => index 0 1
  | .unix _, .ipv4 _ => index 1 0

def addrOperators : Operators Addr where
  lt := variantBy (fun l r => decide (l < r)) ipv4Operators.lt unixOperators.lt
  gt := variantBy (fun l r => decide (l > r)) ipv4Operators.gt unixOperators.gt
  le := variantBy (fun l r => decide (l < r)) ipv4Operators.le unixOperators.le
  ge := variantBy (fun l r => decide (l > r)) ipv4Operators.ge unixOperators.ge
  eq := variantBy (fun l r => decide (l = r)) ipv4Operators.eq unixOperators.eq

/-- Two IPv4 addresses, one with the smaller octets and one with the smaller port. -/
def Conflict : Addr → Addr → Prop
  | .ipv4 a, .ipv4 b => Ipv4Conflict a b
  | .unix _, .unix _ => False
  | .ipv4 _, .unix _ => False
  | .unix _, .ipv4 _ => False

theorem coherent_ipv4 (a b : Ipv4Addr) :
    Coherent addrOperators (.ipv4 a) (.ipv4 b) ↔ ¬Ipv4Conflict a b := by
  rw [ipv4Conflict_iff, ← coherent_throughLt_iff ipv4Lt_iff ipv4Eq_iff]
  exact ⟨fun both => ⟨both.1, both.2, both.3, both.4⟩, fun both => ⟨both.1, both.2, both.3, both.4⟩⟩

theorem coherent_unix (a b : UnixAddr) : Coherent addrOperators (.unix a) (.unix b) :=
  have both : Coherent unixOperators a b := (unix_lawful a b a).coherent
  ⟨both.1, both.2, both.3, both.4⟩

/-- Of two alternatives the first one is smaller. -/
theorem coherent_ipv4_unix (a : Ipv4Addr) (b : UnixAddr) :
    Coherent addrOperators (.ipv4 a) (.unix b) where
  trichotomy := Or.inl ⟨rfl, Bool.noConfusion, Bool.noConfusion⟩
  gt_iff := Iff.rfl
  le_iff := iff_of_true rfl (Or.inl rfl)
  ge_iff := iff_of_false Bool.noConfusion (not_or.mpr ⟨Bool.noConfusion, Bool.noConfusion⟩)

theorem coherent_unix_ipv4 (a : UnixAddr) (b : Ipv4Addr) :
    Coherent addrOperators (.unix a) (.ipv4 b) where
  trichotomy := Or.inr (Or.inr ⟨Bool.noConfusion, Bool.noConfusion, rfl⟩)
  gt_iff := Iff.rfl
  le_iff := iff_of_false Bool.noConfusion (not_or.mpr ⟨Bool.noConfusion, Bool.noConfusion⟩)
  ge_iff := iff_of_true rfl (Or.inl rfl)

theorem addr_coherent_iff (a b : Addr) : Coherent addrOperators a b ↔ ¬Conflict a b := by
  cases a with
  | ipv4 a =>
    cases b with
    | ipv4 b => exact coherent_ipv4 a b
    | unix b => exact iff_of_true (coherent_ipv4_unix a b) not_false
  | unix a =>
    cases b with
    | ipv4 b => exact iff_of_true (coherent_unix_ipv4 a b) not_false
    | unix b => exact iff_of_true (coherent_unix a b) not_false

/-- No address of the second alternative is before one of the first, so a chain changes
the alternative at most once. -/
theorem addr_transitive {a b c : Addr} (apart : ¬Conflict a b)
    (first : addrOperators.lt a b) (second : addrOperators.lt b c) : addrOperators.lt a c := by
  cases a with
  | ipv4 a =>
    cases c with
    | unix c => rfl
    | ipv4 c =>
      cases b with
      | unix b => cases second
      | ipv4 b =>
        have comparable : ¬IncompRel (· ≤ ·) (ipv4Key a) (ipv4Key b) :=
          fun incomparable => apart ((ipv4Conflict_iff a b).mpr incomparable)
        exact transitive_throughLt ipv4Lt_iff comparable first second
  | unix a =>
    cases b with
    | ipv4 b => cases first
    | unix b =>
      cases c with
      | ipv4 c => cases second
      | unix c => exact (unix_lawful a b c).transitive first second

/-- The comparisons are a strict total order on exactly the addresses that do not
conflict. Unix addresses never do. -/
theorem comparisons_lawful_iff (x y z : Ipv4Addr) (p q r : UnixAddr) (a b c : Addr) :
    (Lawful ipv4Operators x y z ↔ ¬Ipv4Conflict x y) ∧ Lawful unixOperators p q r ∧
      (Lawful addrOperators a b c ↔ ¬Conflict a b) := by
  refine ⟨ipv4_lawful_iff x y z, unix_lawful p q r, ?_⟩
  rw [← addr_coherent_iff]
  refine ⟨Lawful.coherent, fun coherent => ⟨coherent, ?_⟩⟩
  exact addr_transitive ((addr_coherent_iff a b).mp coherent)

/-- `10.0.0.1` with the port 9 and `10.0.0.2` with the port 7 are each before the other,
and so the first one would have to be before itself. -/
theorem each_before_the_other :
    let a : Ipv4Addr := ⟨9, #v[10, 0, 0, 1]⟩
    let b : Ipv4Addr := ⟨7, #v[10, 0, 0, 2]⟩
    ipv4Lt a b ∧ ipv4Lt b a ∧ ¬ipv4Lt a a ∧ ¬Lawful ipv4Operators a b a ∧
      ¬Lawful addrOperators (.ipv4 a) (.ipv4 b) (.ipv4 a) := by
  intro a b
  have first : ipv4Lt a b = true := by decide
  have second : ipv4Lt b a = true := by decide
  have itself : ¬ipv4Lt a a = true := by decide
  exact ⟨first, second, itself, fun laws => itself (laws.transitive first second),
    fun laws => itself (laws.transitive first second)⟩

end AddrOrder
