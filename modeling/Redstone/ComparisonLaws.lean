import Mathlib.Order.Comparable
import Mathlib.Data.List.Lex

/-!
# Laws of comparison operators

The comparison operators of a type are Boolean functions that need not fit together. On
three values they are lawful if they behave like a strict total order with its equality.
Operators that are all defined through one less-than are judged by a key in a partial
order: if less-than is the negation of being above, then the laws hold on exactly the
pairs whose keys are comparable.
-/

namespace ComparisonLaws

universe u v
variable {α : Type u} {κ : Type v}

structure Operators (α : Type u) where
  lt : α → α → Bool
  gt : α → α → Bool
  le : α → α → Bool
  ge : α → α → Bool
  eq : α → α → Bool

/-- The other orders as calls of less-than. -/
def throughLt (lt eq : α → α → Bool) : Operators α where
  lt := lt
  gt l r := lt r l
  le l r := !lt r l
  ge l r := !lt l r
  eq := eq

def ExactlyOne (p q r : Prop) : Prop := (p ∧ ¬q ∧ ¬r) ∨ (¬p ∧ q ∧ ¬r) ∨ (¬p ∧ ¬q ∧ r)

/-- The laws that concern two values. -/
structure Coherent (ops : Operators α) (a b : α) : Prop where
  trichotomy : ExactlyOne (ops.lt a b) (ops.eq a b) (ops.lt b a)
  gt_iff : ops.gt a b ↔ ops.lt b a
  le_iff : ops.le a b ↔ ops.lt a b ∨ ops.eq a b
  ge_iff : ops.ge a b ↔ ops.lt b a ∨ ops.eq a b

structure Lawful (ops : Operators α) (a b c : α) : Prop where
  coherent : Coherent ops a b
  transitive : ops.lt a b → ops.lt b c → ops.lt a c

section Keys
variable [PartialOrder κ] {lt eq : α → α → Bool} {key : α → κ}

/-- The order operators follow from trichotomy, since they are calls of less-than. -/
theorem coherent_throughLt {a b : α} (one : ExactlyOne (lt a b) (eq a b) (lt b a)) :
    Coherent (throughLt lt eq) a b := by
  refine ⟨one, Iff.rfl, ?_, ?_⟩
  · change (!lt b a) = true ↔ lt a b = true ∨ eq a b = true
    rw [Bool.not_eq_true']
    rcases one with ⟨less, _, notGreater⟩ | ⟨_, same, notGreater⟩ | ⟨notLess, other, greater⟩
    · exact iff_of_true (Bool.eq_false_iff.mpr notGreater) (Or.inl less)
    · exact iff_of_true (Bool.eq_false_iff.mpr notGreater) (Or.inr same)
    · exact iff_of_false (by rw [greater]; exact Bool.noConfusion) (not_or.mpr ⟨notLess, other⟩)
  · change (!lt a b) = true ↔ lt b a = true ∨ eq a b = true
    rw [Bool.not_eq_true']
    rcases one with ⟨less, other, notGreater⟩ | ⟨notLess, same, _⟩ | ⟨notLess, _, greater⟩
    · exact iff_of_false (by rw [less]; exact Bool.noConfusion) (not_or.mpr ⟨notGreater, other⟩)
    · exact iff_of_true (Bool.eq_false_iff.mpr notLess) (Or.inr same)
    · exact iff_of_true (Bool.eq_false_iff.mpr notLess) (Or.inl greater)

/-- Where less-than means "not above", exactly one of the three holds on comparable keys. -/
theorem exactlyOne_iff (less : ∀ a b, lt a b = true ↔ ¬key b ≤ key a)
    (equal : ∀ a b, eq a b = true ↔ key a = key b) (a b : α) :
    ExactlyOne (lt a b) (eq a b) (lt b a) ↔ ¬IncompRel (· ≤ ·) (key a) (key b) := by
  rw [ExactlyOne, less, less, equal, not_incompRel_iff_symmGen]
  constructor
  · rintro (⟨_, _, notBelow⟩ | ⟨_, same, _⟩ | ⟨notAbove, _, _⟩)
    · exact Or.inl (not_not.mp notBelow)
    · exact Or.inl same.le
    · exact Or.inr (not_not.mp notAbove)
  · intro comparable
    rcases eq_or_ne (key a) (key b) with same | other
    · exact Or.inr (Or.inl ⟨not_not.mpr same.ge, same, not_not.mpr same.le⟩)
    · rcases comparable with below | above
      · exact Or.inl ⟨fun above => other (below.antisymm above), other, not_not.mpr below⟩
      · exact Or.inr (Or.inr ⟨not_not.mpr above, other, fun below => other (below.antisymm above)⟩)

/-- The laws for two values hold on exactly the pairs with comparable keys. -/
theorem coherent_throughLt_iff (less : ∀ a b, lt a b = true ↔ ¬key b ≤ key a)
    (equal : ∀ a b, eq a b = true ↔ key a = key b) (a b : α) :
    Coherent (throughLt lt eq) a b ↔ ¬IncompRel (· ≤ ·) (key a) (key b) := by
  rw [← exactlyOne_iff less equal]
  exact ⟨Coherent.trichotomy, coherent_throughLt⟩

/-- Transitivity does not fail after two values with comparable keys. -/
theorem transitive_throughLt (less : ∀ a b, lt a b = true ↔ ¬key b ≤ key a) {a b c : α}
    (comparable : ¬IncompRel (· ≤ ·) (key a) (key b)) (first : lt a b = true)
    (second : lt b c = true) : lt a c = true := by
  rw [less] at first second ⊢
  have below : key a ≤ key b := (not_incompRel_iff_symmGen.mp comparable).resolve_right first
  exact fun above => second (above.trans below)

theorem lawful_throughLt_iff (less : ∀ a b, lt a b = true ↔ ¬key b ≤ key a)
    (equal : ∀ a b, eq a b = true ↔ key a = key b) (a b c : α) :
    Lawful (throughLt lt eq) a b c ↔ ¬IncompRel (· ≤ ·) (key a) (key b) := by
  rw [← coherent_throughLt_iff less equal]
  refine ⟨Lawful.coherent, fun coherent => ⟨coherent, ?_⟩⟩
  exact transitive_throughLt less ((coherent_throughLt_iff less equal a b).mp coherent)

end Keys

/-! ## Bytes compared from the left -/

/-- The sign of the first difference, of the bytes as unsigned numbers; zero if there is
none within the shorter of the two. -/
def memcmp {w : Nat} : List (BitVec w) → List (BitVec w) → Int
  | x :: xs, y :: ys => if x = y then memcmp xs ys else if x < y then -1 else 1
  | [], _ => 0
  | _ :: _, [] => 0

/-- The values of bytes, ordered lexicographically. -/
def values {w : Nat} (bytes : List (BitVec w)) : List Nat := bytes.map BitVec.toNat

theorem values_injective {w : Nat} : Function.Injective (@values w) :=
  List.map_injective_iff.mpr fun _ _ => BitVec.eq_of_toNat_eq

theorem memcmp_eq_zero {w : Nat} (l r : List (BitVec w)) :
    l = r ↔ memcmp l r = 0 ∧ l.length = r.length := by
  induction l generalizing r with
  | nil => cases r <;> simp [memcmp]
  | cons x xs ih =>
    cases r with
    | nil => simp [memcmp]
    | cons y ys =>
      by_cases same : x = y
      · rw [memcmp, if_pos same, List.length_cons, List.length_cons, Nat.add_right_cancel_iff,
          ← ih ys, same, List.cons_inj_right]
      · have nonzero : (if x < y then (-1 : Int) else 1) ≠ 0 := by split <;> decide
        rw [memcmp, if_neg same]
        exact iff_of_false (fun equal => same (List.cons.inj equal).1) (fun both => nonzero both.1)

/-- Bytes are before others in lexicographic order if they are so within the common
length, or agree there and are shorter. -/
theorem values_lt_iff {w : Nat} (l r : List (BitVec w)) :
    values l < values r ↔ memcmp l r < 0 ∨ memcmp l r = 0 ∧ l.length < r.length := by
  induction l generalizing r with
  | nil => cases r <;> simp [memcmp, values]
  | cons x xs ih =>
    cases r with
    | nil => simp [memcmp, values]
    | cons y ys =>
      rw [values, values, List.map_cons, List.map_cons, List.cons_lt_cons_iff]
      by_cases same : x = y
      · have smaller : ¬x.toNat < y.toNat := by rw [same]; exact Nat.lt_irrefl _
        rw [memcmp, if_pos same, List.length_cons, List.length_cons, Nat.add_lt_add_iff_right,
          ← ih ys, or_iff_right smaller, and_iff_right (congrArg BitVec.toNat same)]
        rfl
      · have values_ne : x.toNat ≠ y.toNat := fun equal => same (BitVec.eq_of_toNat_eq equal)
        rw [memcmp, if_neg same, or_iff_left (fun both => values_ne both.1), ← BitVec.lt_def]
        by_cases smaller : x < y
        · rw [if_pos smaller]
          exact iff_of_true smaller (Or.inl (by decide))
        · rw [if_neg smaller]
          exact iff_of_false smaller (by omega)

end ComparisonLaws
