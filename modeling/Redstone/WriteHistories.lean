import Redstone.SparseArray

/-!
# Histories of positional writes

A list that many positional writes went to, in their order: its length is the farthest
end of a write, and each element is what the last write over its index put there.
Writes of several parties keep the order of each party only; when no index is written
by two of them, the order between the parties does not matter.
-/

namespace WriteHistories

open SparseArray

universe u v
variable {α : Type u} {τ : Type v}

/-- One write: some elements at a position. -/
structure Patch (α : Type u) where
  pos : Nat
  elems : List α

namespace Patch

def stop (p : Patch α) : Nat := p.pos + p.elems.length

def Covers (p : Patch α) (i : Nat) : Prop := p.pos ≤ i ∧ i < p.stop

instance (p : Patch α) (i : Nat) : Decidable (p.Covers i) :=
  inferInstanceAs (Decidable (p.pos ≤ i ∧ i < p.stop))

/-- What the write puts at an index, if it covers it. -/
def elem (p : Patch α) (i : Nat) : Option α := if p.pos ≤ i then p.elems[i - p.pos]? else none

theorem elem_eq_none {p : Patch α} {i : Nat} : p.elem i = none ↔ ¬p.Covers i := by
  by_cases before : p.pos ≤ i
  · rw [elem, if_pos before, List.getElem?_eq_none_iff, Covers, stop]
    omega
  · rw [elem, if_neg before, Covers]
    simp [before]

/-- Elements written in two halves: the second half begins where the first one ends. -/
theorem elem_append (pos : Nat) (first second : List α) (i : Nat) :
    elem ⟨pos, first ++ second⟩ i =
      (elem ⟨pos + first.length, second⟩ i).or (elem ⟨pos, first⟩ i) := by
  by_cases before : pos ≤ i
  · simp only [elem, if_pos before]
    by_cases inFirst : i < pos + first.length
    · rw [if_neg (Nat.not_le.mpr inFirst), List.getElem?_append_left (by omega), Option.none_or]
    · rw [if_pos (Nat.le_of_not_lt inFirst), List.getElem?_append_right (by omega),
        List.getElem?_eq_none (l := first) (by omega), Option.or_none, Nat.sub_sub]
  · have pastStart : ¬pos + first.length ≤ i := by omega
    simp only [elem, if_neg before, if_neg pastStart, Option.or_none]

end Patch

/-- The list after all writes, oldest first. -/
def replay (z : α) (l : List α) (ps : List (Patch α)) : List α :=
  ps.foldl (fun l p => put z l p.pos p.elems) l

/-- The farthest end of a write. -/
def reach : List (Patch α) → Nat
  | [] => 0
  | p :: rest => max p.stop (reach rest)

/-- What the last write that covers an index put there. -/
def lastWritten : List (Patch α) → Nat → Option α
  | [], _ => none
  | p :: rest, i => (lastWritten rest i).or (p.elem i)

theorem reach_le_iff {ps : List (Patch α)} {n : Nat} : reach ps ≤ n ↔ ∀ p ∈ ps, p.stop ≤ n := by
  induction ps with
  | nil => simp [reach]
  | cons p rest ih =>
    rw [reach, Nat.max_le, ih, List.forall_mem_cons]

theorem reach_le_of_subset {ps qs : List (Patch α)} (subset : ∀ p ∈ ps, p ∈ qs) :
    reach ps ≤ reach qs := by
  refine reach_le_iff.mpr fun p member => ?_
  exact reach_le_iff.mp (Nat.le_refl _) p (subset p member)

theorem lastWritten_eq_none {ps : List (Patch α)} {i : Nat} :
    lastWritten ps i = none ↔ ∀ p ∈ ps, ¬p.Covers i := by
  induction ps with
  | nil => simp [lastWritten]
  | cons p rest ih =>
    rw [lastWritten, Option.or_eq_none_iff, ih, Patch.elem_eq_none, List.forall_mem_cons,
      and_comm]

/-- One write: the written elements, else the old ones or the filler. -/
theorem getD_put (z : α) (l : List α) (p : Patch α) (i : Nat) :
    (put z l p.pos p.elems).getD i z = (p.elem i).getD (l.getD i z) := by
  rw [List.getD_eq_getElem?_getD]
  by_cases inside : i < max l.length (p.pos + p.elems.length)
  · rw [getElem?_put z l p.pos p.elems inside]
    by_cases covered : p.pos ≤ i ∧ i < p.pos + p.elems.length
    · have here : i - p.pos < p.elems.length := by omega
      rw [if_pos covered, Patch.elem, if_pos covered.1, List.getElem?_eq_getElem here]
      rfl
    · rw [if_neg covered, Patch.elem_eq_none.mpr covered]
      rfl
  · have outside : ¬p.Covers i := fun covered => inside (Nat.lt_of_lt_of_le covered.2
      (Nat.le_max_right _ _))
    have past : l.length ≤ i := by omega
    rw [List.getElem?_eq_none (by rw [length_put]; omega), Patch.elem_eq_none.mpr outside,
      Option.getD_none, List.getD_eq_default l z past, Option.getD_none]

/-- Lists of one length that agree at every index, past the end included. -/
theorem eq_of_getD (z : α) {l l' : List α} (length : l.length = l'.length)
    (elems : ∀ i, l.getD i z = l'.getD i z) : l = l' := by
  apply List.ext_getElem length
  intro i inside inside'
  have same := elems i
  rw [List.getD_eq_getElem l z inside, List.getD_eq_getElem l' z inside'] at same
  exact same

/-- A write in two adjacent halves is one write. -/
theorem put_append (z : α) (l : List α) (pos : Nat) (first second : List α) :
    put z (put z l pos first) (pos + first.length) second = put z l pos (first ++ second) := by
  apply eq_of_getD z
  · simp only [length_put, List.length_append]
    omega
  · intro i
    have later := getD_put z (put z l pos first) ⟨pos + first.length, second⟩ i
    have earlier := getD_put z l ⟨pos, first⟩ i
    have whole := getD_put z l ⟨pos, first ++ second⟩ i
    rw [later, earlier, whole, Patch.elem_append]
    cases Patch.elem ⟨pos + first.length, second⟩ i <;> rfl

theorem length_replay (z : α) (l : List α) (ps : List (Patch α)) :
    (replay z l ps).length = max l.length (reach ps) := by
  induction ps generalizing l with
  | nil => simp [replay, reach]
  | cons p rest ih =>
    change (replay z (put z l p.pos p.elems) rest).length = _
    rw [ih, length_put, reach, Patch.stop, Nat.max_assoc]

theorem getD_replay (z : α) (l : List α) (ps : List (Patch α)) (i : Nat) :
    (replay z l ps).getD i z = (lastWritten ps i).getD (l.getD i z) := by
  induction ps generalizing l with
  | nil => rfl
  | cons p rest ih =>
    change (replay z (put z l p.pos p.elems) rest).getD i z = _
    rw [ih, getD_put, lastWritten]
    cases lastWritten rest i <;> rfl

/-- The law of a history: the last write over an index decides, where there is none the
old element, and in a gap the filler. -/
theorem getElem?_replay (z : α) (l : List α) (ps : List (Patch α)) {i : Nat}
    (inside : i < (replay z l ps).length) :
    (replay z l ps)[i]? = some ((lastWritten ps i).getD (l.getD i z)) := by
  rw [← getD_replay, List.getElem?_eq_getElem inside, List.getD_eq_getElem _ z inside]

theorem lastWritten_append (ps qs : List (Patch α)) (i : Nat) :
    lastWritten (ps ++ qs) i = (lastWritten qs i).or (lastWritten ps i) := by
  induction ps with
  | nil => rw [List.nil_append, lastWritten, Option.or_none]
  | cons p rest ih => rw [List.cons_append, lastWritten, ih, lastWritten, Option.or_assoc]

theorem reach_append (ps qs : List (Patch α)) : reach (ps ++ qs) = max (reach ps) (reach qs) := by
  induction ps with
  | nil => rw [List.nil_append, reach, Nat.zero_max]
  | cons p rest ih => rw [List.cons_append, reach, ih, reach, Nat.max_assoc]

/-- Histories that do the same to every list. -/
structure SameEffect (ps qs : List (Patch α)) : Prop where
  ends : reach ps = reach qs
  elems : ∀ i, lastWritten ps i = lastWritten qs i

theorem SameEffect.refl (ps : List (Patch α)) : SameEffect ps ps := ⟨rfl, fun _ => rfl⟩

theorem SameEffect.symm {ps qs : List (Patch α)} (same : SameEffect ps qs) : SameEffect qs ps :=
  ⟨same.ends.symm, fun i => (same.elems i).symm⟩

theorem SameEffect.trans {ps qs rs : List (Patch α)} (first : SameEffect ps qs)
    (second : SameEffect qs rs) : SameEffect ps rs :=
  ⟨first.ends.trans second.ends, fun i => (first.elems i).trans (second.elems i)⟩

theorem SameEffect.replay {ps qs : List (Patch α)} (same : SameEffect ps qs) (z : α)
    (l : List α) : WriteHistories.replay z l ps = WriteHistories.replay z l qs := by
  apply eq_of_getD z
  · rw [length_replay, length_replay, same.ends]
  · intro i
    rw [getD_replay, getD_replay, same.elems]

/-- The last writes, made a second time. -/
theorem sameEffect_again (ps qs : List (Patch α)) : SameEffect (ps ++ qs ++ qs) (ps ++ qs) where
  ends := by
    rw [reach_append, reach_append, Nat.max_assoc, Nat.max_self]
  elems := fun i => by
    rw [lastWritten_append, lastWritten_append]
    cases lastWritten qs i <;> rfl

theorem replay_append (z : α) (l : List α) (ps qs : List (Patch α)) :
    replay z l (ps ++ qs) = replay z (replay z l ps) qs :=
  List.foldl_append

theorem replay_again (z : α) (l : List α) (ps : List (Patch α)) :
    replay z (replay z l ps) ps = replay z l ps := by
  rw [← replay_append]
  exact (sameEffect_again [] ps).replay z l

/-! ## Several parties -/

section Parties
variable [DecidableEq τ]

/-- What one party did, of what all did. -/
def own {β : Type u} (t : τ) (h : List (τ × β)) : List β :=
  h.filterMap fun e => if e.1 = t then some e.2 else none

theorem own_append {β : Type u} (t : τ) (h h' : List (τ × β)) :
    own t (h ++ h') = own t h ++ own t h' :=
  List.filterMap_append

theorem mem_own {β : Type u} {t : τ} {h : List (τ × β)} {b : β} :
    b ∈ own t h ↔ (t, b) ∈ h := by
  rw [own, List.mem_filterMap]
  constructor
  · rintro ⟨⟨s, c⟩, member, same⟩
    by_cases here : s = t
    · rw [if_pos here] at same
      rw [← here, ← Option.some.inj same]
      exact member
    · rw [if_neg here] at same
      cases same
  · intro member
    exact ⟨(t, b), member, if_pos rfl⟩

theorem own_map_self {β : Type u} (t : τ) (l : List β) : own t (l.map fun b => (t, b)) = l := by
  rw [own, List.filterMap_map]
  simp

theorem own_map_other {β : Type u} {s t : τ} (other : s ≠ t) (l : List β) :
    own t (l.map fun b => (s, b)) = [] := by
  rw [own, List.filterMap_map]
  simp [other]

/-- The part of one party is exchanged, and the others' is kept. -/
theorem exists_replaced {β : Type u} (t : τ) (h : List (τ × β)) (mine : List β) :
    ∃ h' : List (τ × β), own t h' = mine ∧ ∀ s, s ≠ t → own s h' = own s h := by
  refine ⟨(h.filter fun e => e.1 ≠ t) ++ mine.map fun b => (t, b), ?_, fun s other => ?_⟩
  · have removed : own t (h.filter fun e => e.1 ≠ t) = [] := by
      refine List.filterMap_eq_nil_iff.mpr fun e member => if_neg ?_
      exact of_decide_eq_true (List.mem_filter.mp member).2
    rw [own_append, removed, own_map_self, List.nil_append]
  · have kept : own s (h.filter fun e => e.1 ≠ t) = own s h := by
      rw [own, own, List.filterMap_filter]
      congr 1
      funext e
      by_cases mine : e.1 = s
      · simp [mine, other]
      · simp [mine]
    rw [own_append, kept, own_map_other (Ne.symm other), List.append_nil]

/-- No index is covered by writes of two parties. -/
def Disjoint (h : List (τ × Patch α)) : Prop :=
  ∀ a ∈ h, ∀ b ∈ h, a.1 ≠ b.1 → ∀ i, a.2.Covers i → ¬b.2.Covers i

/-- Where only one party writes, its own writes decide. -/
theorem lastWritten_own {t : τ} {h : List (τ × Patch α)} {i : Nat}
    (others : ∀ e ∈ h, e.1 ≠ t → ¬e.2.Covers i) :
    lastWritten (h.map Prod.snd) i = lastWritten (own t h) i := by
  induction h with
  | nil => rfl
  | cons e rest ih =>
    obtain ⟨here, later⟩ := List.forall_mem_cons.mp others
    have tail := ih later
    by_cases mine : e.1 = t
    · have head : own t (e :: rest) = e.2 :: own t rest := by
        rw [own, List.filterMap_cons, if_pos mine]
        rfl
      rw [head, List.map_cons, lastWritten, lastWritten, tail]
    · have head : own t (e :: rest) = own t rest := by
        rw [own, List.filterMap_cons, if_neg mine]
        rfl
      rw [head, List.map_cons, lastWritten, tail, Patch.elem_eq_none.mpr (here mine),
        Option.or_none]

theorem mem_of_own_eq {β : Type u} {h h' : List (τ × β)} (same : ∀ t, own t h = own t h')
    {e : τ × β} (member : e ∈ h) : e ∈ h' := by
  have mine : e.2 ∈ own e.1 h' := by
    rw [← same]
    exact mem_own.mpr member
  exact mem_own.mp mine

theorem reach_of_own {h h' : List (τ × Patch α)} (same : ∀ t, SameEffect (own t h) (own t h')) :
    reach (h.map Prod.snd) ≤ reach (h'.map Prod.snd) := by
  refine reach_le_iff.mpr fun p member => ?_
  obtain ⟨e, inside, rfl⟩ := List.mem_map.mp member
  have mine : e.2.stop ≤ reach (own e.1 h) :=
    reach_le_iff.mp (Nat.le_refl _) e.2 (mem_own.mpr inside)
  rw [(same e.1).ends] at mine
  refine Nat.le_trans mine (reach_le_of_subset fun p member => ?_)
  exact List.mem_map_of_mem (f := Prod.snd) (mem_own.mp member)

/-- An index that a party covers in one history, it covers in the other. -/
theorem covers_of_own {h h' : List (τ × Patch α)} (same : ∀ t, SameEffect (own t h) (own t h'))
    {e : τ × Patch α} {i : Nat} (member : e ∈ h) (covers : e.2.Covers i) :
    ∃ d ∈ h', d.1 = e.1 ∧ d.2.Covers i := by
  by_contra none
  have left : lastWritten (own e.1 h') i = Option.none := by
    refine lastWritten_eq_none.mpr fun p mine covers' => ?_
    exact none ⟨(e.1, p), mem_own.mp mine, rfl, covers'⟩
  rw [← (same e.1).elems] at left
  exact lastWritten_eq_none.mp left e.2 (mem_own.mpr member) covers

/-- An index is decided by the one party that writes it, in any order. -/
theorem lastWritten_of_own {h h' : List (τ × Patch α)} (disjoint : Disjoint h)
    (same : ∀ t, SameEffect (own t h) (own t h')) (i : Nat) :
    lastWritten (h.map Prod.snd) i = lastWritten (h'.map Prod.snd) i := by
  have back : ∀ t, SameEffect (own t h') (own t h) := fun t => (same t).symm
  by_cases covered : ∃ e ∈ h, e.2.Covers i
  · obtain ⟨e, member, covers⟩ := covered
    have others : ∀ d ∈ h, d.1 ≠ e.1 → ¬d.2.Covers i := fun d inside other =>
      disjoint e member d inside (Ne.symm other) i covers
    have others' : ∀ d ∈ h', d.1 ≠ e.1 → ¬d.2.Covers i := by
      intro d inside other covers'
      obtain ⟨d', inside', party, covers''⟩ := covers_of_own back inside covers'
      exact others d' inside' (party ▸ other) covers''
    rw [lastWritten_own others, lastWritten_own others', (same e.1).elems]
  · have none : ∀ d ∈ h, ¬d.2.Covers i := fun d inside covers => covered ⟨d, inside, covers⟩
    have none' : ∀ d ∈ h', ¬d.2.Covers i := by
      intro d inside covers
      obtain ⟨d', inside', -, covers'⟩ := covers_of_own back inside covers
      exact none d' inside' covers'
    rw [lastWritten_eq_none.mpr (List.forall_mem_map.mpr none),
      lastWritten_eq_none.mpr (List.forall_mem_map.mpr none')]

/-- Any two orders of the writes of parties that share no index leave the same list. -/
theorem replay_interleaved (z : α) (l : List α) {h h' : List (τ × Patch α)}
    (disjoint : Disjoint h) (same : ∀ t, SameEffect (own t h) (own t h')) :
    replay z l (h.map Prod.snd) = replay z l (h'.map Prod.snd) := by
  have back : ∀ t, SameEffect (own t h') (own t h) := fun t => (same t).symm
  have effect : SameEffect (h.map Prod.snd) (h'.map Prod.snd) :=
    ⟨Nat.le_antisymm (reach_of_own same) (reach_of_own back), lastWritten_of_own disjoint same⟩
  exact effect.replay z l

end Parties

end WriteHistories
