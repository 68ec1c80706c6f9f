import Mathlib.Data.Set.Insert
import Mathlib.Logic.Equiv.Defs
import Mathlib.Logic.Function.Basic
import Mathlib.Logic.ExistsUnique
import Mathlib.Order.BooleanAlgebra.Set

/-!
# Slots that own what they hold

A slot is empty or holds an object, and an object goes away when the slot that holds it is
overwritten or emptied. If new objects only are put into slots, and otherwise contents
change places, then every object there is lies in exactly one slot.
-/

namespace SoleOwners

open Function

universe u v
variable {Slot : Type u} {Object : Type v}

structure Slots (Slot : Type u) (Object : Type v) where
  holds : Slot → Option Object
  live : Set Object

/-- Every object there is lies in exactly one slot, and no slot holds another one. -/
def Exact (s : Slots Slot Object) : Prop :=
  (∀ o, o ∈ s.live ↔ ∃ h, s.holds h = some o) ∧
    ∀ h h' o, s.holds h = some o → s.holds h' = some o → h = h'

theorem exact_iff (s : Slots Slot Object) :
    Exact s ↔ ∀ o, (o ∈ s.live ↔ ∃ h, s.holds h = some o) ∧
      (o ∈ s.live → ∃! h, s.holds h = some o) := by
  constructor
  · rintro ⟨held, sole⟩ o
    refine ⟨held o, fun live => ?_⟩
    obtain ⟨h, here⟩ := (held o).mp live
    exact ⟨h, here, fun h' there => sole h' h o there here⟩
  · intro all
    refine ⟨fun o => (all o).1, fun h h' o here there => ?_⟩
    exact ((all o).2 ((all o).1.mpr ⟨h, here⟩)).unique here there

section Steps
variable [DecidableEq Slot]

/-- The objects besides the one in a slot. -/
def Slots.without (s : Slots Slot Object) (h : Slot) : Set Object :=
  {o | o ∈ s.live ∧ s.holds h ≠ some o}

/-- A slot is overwritten with one of the new objects, or emptied. -/
inductive SlotStep (new : Set Object) (s : Slots Slot Object) : Slots Slot Object → Prop where
  | stay : SlotStep new s s
  | put (h : Slot) {o : Object} (fresh : o ∈ new) :
      SlotStep new s ⟨update s.holds h (some o), insert o (s.without h)⟩
  | take (h : Slot) : SlotStep new s ⟨update s.holds h none, s.without h⟩

theorem exact_take {s : Slots Slot Object} (exact : Exact s) (h : Slot) :
    Exact ⟨update s.holds h none, s.without h⟩ := by
  obtain ⟨held, sole⟩ := exact
  have kept : ∀ k o, update s.holds h none k = some o → k ≠ h ∧ s.holds k = some o := by
    intro k o here
    by_cases same : k = h
    · rw [same, update_self] at here
      cases here
    · rw [update_of_ne same] at here
      exact ⟨same, here⟩
  constructor
  · intro o
    constructor
    · rintro ⟨live, elsewhere⟩
      obtain ⟨k, here⟩ := (held o).mp live
      have other : k ≠ h := by
        rintro rfl
        exact elsewhere here
      exact ⟨k, (update_of_ne other none s.holds).trans here⟩
    · rintro ⟨k, here⟩
      obtain ⟨other, before⟩ := kept k o here
      exact ⟨(held o).mpr ⟨k, before⟩, fun there => other (sole k h o before there)⟩
  · intro k k' o here there
    exact sole k k' o (kept k o here).2 (kept k' o there).2

/-- A new object in an empty slot. -/
theorem exact_fill {s : Slots Slot Object} (exact : Exact s) {h : Slot} {o : Object}
    (empty : s.holds h = none) (new : o ∉ s.live) :
    Exact ⟨update s.holds h (some o), insert o s.live⟩ := by
  obtain ⟨held, sole⟩ := exact
  have old : ∀ k x, s.holds k = some x → k ≠ h := by
    rintro k x here rfl
    rw [empty] at here
    cases here
  have parts : ∀ k x, update s.holds h (some o) k = some x →
      k = h ∧ o = x ∨ s.holds k = some x := by
    intro k x here
    by_cases same : k = h
    · rw [same, update_self] at here
      exact Or.inl ⟨same, Option.some.inj here⟩
    · rw [update_of_ne same] at here
      exact Or.inr here
  constructor
  · intro x
    constructor
    · rintro (rfl | live)
      · exact ⟨h, update_self h _ s.holds⟩
      · obtain ⟨k, here⟩ := (held x).mp live
        exact ⟨k, (update_of_ne (old k x here) _ s.holds).trans here⟩
    · rintro ⟨k, here⟩
      rcases parts k x here with ⟨-, rfl⟩ | before
      · exact Set.mem_insert o s.live
      · exact Set.mem_insert_of_mem o ((held x).mpr ⟨k, before⟩)
  · intro k k' x here there
    rcases parts k x here with ⟨first, rfl⟩ | before
    · rcases parts k' o there with ⟨second, -⟩ | before'
      · rw [first, second]
      · exact absurd ((held o).mpr ⟨k', before'⟩) new
    · rcases parts k' x there with ⟨-, rfl⟩ | before'
      · exact absurd ((held o).mpr ⟨k, before⟩) new
      · exact sole k k' x before before'

theorem exact_put {s : Slots Slot Object} (exact : Exact s) (h : Slot) {o : Object}
    (new : o ∉ s.live) : Exact ⟨update s.holds h (some o), insert o (s.without h)⟩ := by
  have filled := exact_fill (exact_take exact h) (update_self h none s.holds)
    (fun old => new old.1)
  rwa [update_idem] at filled

/-- Every step keeps it. -/
theorem exact_step {new : Set Object} {s t : Slots Slot Object} (exact : Exact s)
    (fresh : ∀ o ∈ new, o ∉ s.live) (step : SlotStep new s t) : Exact t := by
  cases step with
  | stay => exact exact
  | put h member => exact exact_put exact h (fresh _ member)
  | take h => exact exact_take exact h

/-- A slot holds an object that is not new only if it held it before. -/
theorem held_step {new : Set Object} {s t : Slots Slot Object} (step : SlotStep new s t)
    {o : Object} (old : o ∉ new) {h : Slot} (held : t.holds h = some o) : s.holds h = some o := by
  cases step with
  | stay => exact held
  | @put k x fresh =>
    change update s.holds k (some x) h = some o at held
    by_cases here : h = k
    · rw [here, update_self] at held
      obtain rfl := Option.some.inj held
      exact absurd fresh old
    · rwa [update_of_ne here] at held
  | take k =>
    change update s.holds k none h = some o at held
    by_cases here : h = k
    · rw [here, update_self] at held
      cases held
    · rwa [update_of_ne here] at held

end Steps

/-! ## Objects on loan -/

/-- The objects in the slots. -/
def Slots.held (s : Slots Slot Object) : Set Object := {o | ∃ h, s.holds h = some o}

/-- No object lies in two slots, and those there are lie in a slot or are on loan. -/
def Shared (loans : Set Object) (s : Slots Slot Object) : Prop :=
  (∀ h h' o, s.holds h = some o → s.holds h' = some o → h = h') ∧ s.live = s.held ∪ loans

/-- The slots with nothing on loan. -/
theorem Shared.exact {loans : Set Object} {s : Slots Slot Object} (shared : Shared loans s) :
    Exact ⟨s.holds, s.held⟩ :=
  ⟨fun _ => Iff.rfl, shared.1⟩

theorem shared_of_exact {loans : Set Object} {s : Slots Slot Object} (exact : Exact s)
    (kept : loans ⊆ s.live) : Shared loans s := by
  have live : s.live = s.held := Set.ext exact.1
  exact ⟨exact.2, by rw [Set.union_eq_self_of_subset_right (live ▸ kept), live]⟩

/-- Loans besides, the slots decide what there is besides one of them. -/
theorem Shared.without {loans : Set Object} {s : Slots Slot Object} (shared : Shared loans s)
    (h : Slot) : s.without h ∪ loans = (Slots.mk s.holds s.held).without h ∪ loans := by
  ext o
  constructor
  · rintro (⟨live, elsewhere⟩ | lent)
    · rcases (shared.2 ▸ live : o ∈ s.held ∪ loans) with held | lent
      · exact Or.inl ⟨held, elsewhere⟩
      · exact Or.inr lent
    · exact Or.inr lent
  · rintro (⟨held, elsewhere⟩ | lent)
    · exact Or.inl ⟨shared.2.symm ▸ Or.inl held, elsewhere⟩
    · exact Or.inr lent

/-- What is on loan survives the slot it lay in. -/
theorem shared_step [DecidableEq Slot] {new loans : Set Object} {s t : Slots Slot Object}
    (shared : Shared loans s) (fresh : ∀ o ∈ new, o ∉ s.live) (step : SlotStep new s t) :
    Shared loans ⟨t.holds, t.live ∪ loans⟩ := by
  have exact := shared.exact
  cases step with
  | stay =>
    refine ⟨shared.1, ?_⟩
    change s.live ∪ loans = s.held ∪ loans
    rw [shared.2, Set.union_assoc, Set.union_self]
  | take h =>
    have taken := exact_take exact h
    refine ⟨taken.2, ?_⟩
    rw [shared.without h]
    exact congrArg (· ∪ loans) (Set.ext taken.1)
  | @put h o member =>
    have absent : o ∉ s.held := fun old => fresh o member (shared.2 ▸ Or.inl old)
    have put := exact_put exact h (o := o) absent
    refine ⟨put.2, ?_⟩
    rw [Set.insert_union, shared.without h, ← Set.insert_union]
    exact congrArg (· ∪ loans) (Set.ext put.1)

/-- Something that is there is lent. -/
theorem shared_lend {loans : Set Object} {s : Slots Slot Object} (shared : Shared loans s)
    {o : Object} (there : o ∈ s.live) : Shared (insert o loans) s := by
  refine ⟨shared.1, ?_⟩
  rw [Set.union_insert, ← shared.2, Set.insert_eq_of_mem there]

/-- What is given back stays there if something else has it, -/
theorem shared_return {loans : Set Object} {s : Slots Slot Object} {o : Object}
    (shared : Shared (insert o loans) s) (owned : o ∈ s.held ∪ loans) : Shared loans s := by
  refine ⟨shared.1, ?_⟩
  rw [shared.2, Set.union_insert, Set.insert_eq_of_mem owned]

/-- and goes away otherwise. -/
theorem shared_drop {loans : Set Object} {s : Slots Slot Object} {o : Object}
    (shared : Shared (insert o loans) s) (last : o ∉ s.held ∪ loans) :
    Shared loans ⟨s.holds, s.live \ {o}⟩ := by
  refine ⟨shared.1, ?_⟩
  change s.live \ {o} = s.held ∪ loans
  rw [shared.2, Set.union_insert, Set.insert_sdiff_self_of_notMem last]

/-- Contents change places. -/
theorem exact_move {s : Slots Slot Object} (exact : Exact s) (places : Equiv.Perm Slot) :
    Exact ⟨fun h => s.holds (places h), s.live⟩ := by
  obtain ⟨held, sole⟩ := exact
  refine ⟨fun o => (held o).trans places.surjective.exists, ?_⟩
  intro h h' o here there
  exact places.injective (sole _ _ o here there)

end SoleOwners
