import Mathlib.Data.Finset.Insert
import Mathlib.Data.Finset.Erase
import Mathlib.Logic.Equiv.Basic
import Redstone.MachineWords
import Redstone.SoleOwners
import Redstone.StepRuns

/-!
# Files that own their descriptor

`sys::file` closes its descriptor when it is destroyed or reset, and passes it on when it is
moved from. A move assignment swaps. Objects come and go here in any order; the kernel gives
out a descriptor that is not open, and `close` of one that is not open fails. `file(int)` does
not look at its argument: here it is given a descriptor that was just opened, as everywhere in
this program, or one that was released before, and no other number.
-/

namespace OwnedFiles

open Function MachineWords SoleOwners StepRuns

variable {V : Type}

/-! ## The class -/

/-- `operator bool`. -/
def isOpen (fd : CInt) : Bool := 0 ≤ fd.toInt

/-- `file::release`: the descriptor and what is left in the object. -/
def release (fd : CInt) : CInt × CInt := (fd, -1)

/-- What a call of `close` found. -/
structure Closed where
  fd : CInt
  found : Bool
  deriving DecidableEq

/-- `close` with the descriptors that are open. -/
def close (opened : Finset CInt) (fd : CInt) : Closed × Finset CInt :=
  (⟨fd, fd ∈ opened⟩, opened.erase fd)

/-- `file::reset`: the call it makes, what is left in the object, and what stays open. -/
def reset (opened : Finset CInt) (fd : CInt) : Option Closed × CInt × Finset CInt :=
  if isOpen fd then
    let (fd, left) := release fd
    let (closed, opened) := close opened fd
    (some closed, left, opened)
  else (none, fd, opened)

/-! ## Programs -/

/-- The objects that exist, each with its `fd_`. Who called `release` has the descriptors
in `released`. -/
structure World (V : Type) where
  objects : V → Option CInt
  opened : Finset CInt
  released : Finset CInt

def empty : World V := ⟨fun _ => none, ∅, ∅⟩

/-- The calls on objects, with the `close` that they make. -/
inductive Event (V : Type) where
  | makes (v : V)
  | adopts (v : V) (fd : CInt)
  | readopts (v : V) (fd : CInt)
  | movesFrom (v u : V)
  | assigns (v u : V)
  | releases (v : V)
  | resets (v : V) (closed : Option Closed)
  | destroys (v : V) (closed : Option Closed)
  | disposes (closed : Closed)

def Event.closed : Event V → Option Closed
  | resets _ closed => closed
  | destroys _ closed => closed
  | disposes closed => some closed
  | _ => none

/-- The descriptor that the kernel gives out. -/
def Event.opens : Event V → Option CInt
  | adopts _ fd => some fd
  | _ => none

section Steps
variable [DecidableEq V]

/-- `file(int)` is `adopts` or `readopts`: its descriptor is new, or its caller had it. -/
inductive FileStep (w : World V) : Event V → World V → Prop where
  | makes {v : V} (fresh : w.objects v = none) :
      FileStep w (.makes v) { w with objects := update w.objects v (some (-1)) }
  | adopts {v : V} {fd : CInt} (fresh : w.objects v = none) (valid : isOpen fd = true)
      (new : fd ∉ w.opened) :
      FileStep w (.adopts v fd)
        { w with objects := update w.objects v (some fd), opened := insert fd w.opened }
  | readopts {v : V} {fd : CInt} (fresh : w.objects v = none) (valid : isOpen fd = true)
      (owned : fd ∈ w.released) :
      FileStep w (.readopts v fd)
        { w with
          objects := update w.objects v (some fd)
          released := w.released.erase fd }
  | movesFrom {v u : V} {fd : CInt} (fresh : w.objects v = none) (there : w.objects u = some fd) :
      FileStep w (.movesFrom v u)
        { w with
          objects := update (update w.objects u (some (release fd).2)) v (some (release fd).1) }
  | assigns {v u : V} {fd fd' : CInt} (here : w.objects v = some fd)
      (there : w.objects u = some fd') :
      FileStep w (.assigns v u)
        { w with objects := update (update w.objects v (some fd')) u (some fd) }
  | releases {v : V} {fd : CInt} (here : w.objects v = some fd) :
      FileStep w (.releases v)
        { w with
          objects := update w.objects v (some (release fd).2)
          released := if isOpen fd then insert fd w.released else w.released }
  | resets {v : V} {fd : CInt} (here : w.objects v = some fd) :
      FileStep w (.resets v (reset w.opened fd).1)
        { w with
          objects := update w.objects v (some (reset w.opened fd).2.1)
          opened := (reset w.opened fd).2.2 }
  | destroys {v : V} {fd : CInt} (here : w.objects v = some fd) :
      FileStep w (.destroys v (reset w.opened fd).1)
        { w with
          objects := update w.objects v none
          opened := (reset w.opened fd).2.2 }
  | disposes {fd : CInt} (owned : fd ∈ w.released) :
      FileStep w (.disposes (close w.opened fd).1)
        { w with opened := (close w.opened fd).2, released := w.released.erase fd }

end Steps

/-! ## Who holds a descriptor -/

/-- The descriptors that no caller has taken over, in the objects. -/
def slots (w : World V) : Slots V CInt where
  holds := fun v => (w.objects v).filter isOpen
  live := {fd | fd ∈ w.opened ∧ fd ∉ w.released}

/-- Every open descriptor is in one object, or was released and is in none. -/
structure Owned (w : World V) : Prop where
  exact : Exact (slots w)
  released : w.released ⊆ w.opened

theorem filter_closed : (some (-1 : CInt)).filter isOpen = none := rfl

theorem filter_open {fd : CInt} (valid : isOpen fd = true) : (some fd).filter isOpen = some fd := by
  rw [Option.filter_some, if_pos valid]

theorem filter_shut {fd : CInt} (invalid : isOpen fd = false) : (some fd).filter isOpen = none := by
  rw [Option.filter_some, if_neg (by rw [invalid]; exact Bool.false_ne_true)]

/-- What an open object holds is open and was not released. -/
theorem held_live {w : World V} (owned : Owned w) {v : V} {fd : CInt}
    (here : w.objects v = some fd) (valid : isOpen fd = true) :
    fd ∈ w.opened ∧ fd ∉ w.released := by
  refine (owned.exact.1 fd).mpr ⟨v, ?_⟩
  change (w.objects v).filter isOpen = some fd
  rw [here, filter_open valid]

theorem reset_open {fd : CInt} (valid : isOpen fd = true) (opened : Finset CInt) :
    reset opened fd = (some ⟨fd, fd ∈ opened⟩, -1, opened.erase fd) :=
  if_pos valid

theorem reset_shut {fd : CInt} (invalid : isOpen fd = false) (opened : Finset CInt) :
    reset opened fd = (none, fd, opened) := by
  rw [reset, if_neg (by rw [invalid]; exact Bool.false_ne_true)]

/-- What `reset` leaves open is all but what the object held. -/
theorem reset_left (w : World V) (fd x : CInt) :
    x ∈ (reset w.opened fd).2.2 ∧ x ∉ w.released ↔
      (x ∈ w.opened ∧ x ∉ w.released) ∧ ¬(isOpen fd = true ∧ x = fd) := by
  cases valid : isOpen fd with
  | true =>
    rw [reset_open valid, Finset.mem_erase]
    exact ⟨fun ⟨⟨other, there⟩, mine⟩ => ⟨⟨there, mine⟩, fun ⟨_, same⟩ => other same⟩,
      fun ⟨⟨there, mine⟩, other⟩ => ⟨⟨fun same => other ⟨rfl, same⟩, there⟩, mine⟩⟩
  | false =>
    rw [reset_shut valid]
    exact ⟨fun inside => ⟨inside, fun ⟨wrong, _⟩ => Bool.false_ne_true wrong⟩, And.left⟩

theorem reset_released {w : World V} (owned : Owned w) {v : V} {fd : CInt}
    (here : w.objects v = some fd) : w.released ⊆ (reset w.opened fd).2.2 := by
  intro x mine
  have there := owned.released mine
  cases valid : isOpen fd with
  | true =>
    have live := held_live owned here valid
    rw [reset_open valid]
    refine Finset.mem_erase.mpr ⟨?_, there⟩
    rintro rfl
    exact live.2 mine
  | false =>
    rw [reset_shut valid]
    exact there

theorem reset_content (opened : Finset CInt) (fd : CInt) :
    (some (reset opened fd).2.1).filter isOpen = none := by
  cases valid : isOpen fd with
  | true =>
    rw [reset_open valid]
    exact filter_closed
  | false =>
    rw [reset_shut valid]
    exact filter_shut valid

/-- A step opens a new descriptor, closes an open one, or leaves the kernel alone. -/
inductive KernelStep (opened : Finset CInt) (e : Event V) : Finset CInt → Prop where
  | opens {fd : CInt} (new : fd ∉ opened) (gets : e.opens = some fd) (silent : e.closed = none) :
      KernelStep opened e (insert fd opened)
  | closes {fd : CInt} (there : fd ∈ opened) (silent : e.opens = none)
      (calls : e.closed = some ⟨fd, true⟩) : KernelStep opened e (opened.erase fd)
  | stays (silent : e.opens = none) (quiet : e.closed = none) : KernelStep opened e opened

theorem kernel_reset {w : World V} {e : Event V} {fd : CInt} (silent : e.opens = none)
    (calls : e.closed = (reset w.opened fd).1) (live : isOpen fd = true → fd ∈ w.opened) :
    KernelStep w.opened e (reset w.opened fd).2.2 := by
  cases valid : isOpen fd with
  | true =>
    rw [reset_open valid] at calls ⊢
    rw [decide_eq_true (live valid)] at calls
    exact .closes (live valid) silent calls
  | false =>
    rw [reset_shut valid] at calls ⊢
    exact .stays silent calls

variable [DecidableEq V]

theorem holds_update (w : World V) (v : V) (content : Option CInt) :
    (fun k => (update w.objects v content k).filter isOpen) =
      update (slots w).holds v (content.filter isOpen) := by
  funext k
  by_cases here : k = v
  · rw [here, update_self, update_self]
  · rw [update_of_ne here, update_of_ne here]
    rfl

/-- Two objects exchange what they hold. -/
theorem owned_swap {w : World V} (owned : Owned w) {v u : V} {objects : V → Option CInt}
    (first : (objects v).filter isOpen = (w.objects u).filter isOpen)
    (second : (objects u).filter isOpen = (w.objects v).filter isOpen)
    (others : ∀ k, k ≠ v → k ≠ u → objects k = w.objects k) : Owned { w with objects } := by
  have holds : (fun k => (objects k).filter isOpen) =
      fun k => (slots w).holds (Equiv.swap v u k) := by
    funext k
    by_cases here : k = v
    · rw [here, Equiv.swap_apply_left, first]
      rfl
    · by_cases there : k = u
      · rw [there, Equiv.swap_apply_right, second]
        rfl
      · rw [Equiv.swap_apply_of_ne_of_ne here there, others k here there]
        rfl
  have moved := exact_move owned.exact (Equiv.swap v u)
  rw [← holds] at moved
  exact ⟨moved, owned.released⟩

/-- A new object gets a descriptor that no object held. -/
theorem owned_fill {w : World V} (owned : Owned w) {v : V} {fd : CInt}
    (fresh : w.objects v = none) (valid : isOpen fd = true) (new : fd ∉ (slots w).live)
    {opened released : Finset CInt} (inside : released ⊆ opened)
    (live : {x | x ∈ opened ∧ x ∉ released} = insert fd (slots w).live) :
    Owned ⟨update w.objects v (some fd), opened, released⟩ := by
  have nothing : (slots w).holds v = none := congrArg (Option.filter isOpen) fresh
  have filled := exact_fill owned.exact nothing new
  rw [← live, ← filter_open valid, ← holds_update] at filled
  exact ⟨filled, inside⟩

/-- An object gives up what it holds, and the descriptor is closed or released. -/
theorem owned_take {w : World V} (owned : Owned w) {v : V} {fd : CInt}
    (here : w.objects v = some fd) {content : Option CInt} (nothing : content.filter isOpen = none)
    {opened released : Finset CInt} (inside : released ⊆ opened)
    (left : ∀ x, x ∈ opened ∧ x ∉ released ↔
      (x ∈ w.opened ∧ x ∉ w.released) ∧ ¬(isOpen fd = true ∧ x = fd)) :
    Owned ⟨update w.objects v content, opened, released⟩ := by
  have same : slots ⟨update w.objects v content, opened, released⟩ =
      ⟨update (slots w).holds v none, (slots w).without v⟩ := by
    have live : {x | x ∈ opened ∧ x ∉ released} = (slots w).without v := by
      ext x
      refine (left x).trans (and_congr_right fun _ => not_congr ?_)
      change _ ↔ (w.objects v).filter isOpen = some x
      rw [here]
      cases valid : isOpen fd with
      | true => simp [filter_open valid, eq_comm]
      | false => simp [filter_shut valid]
    rw [← live, ← nothing, ← holds_update]
    rfl
  refine ⟨?_, inside⟩
  rw [same]
  exact exact_take owned.exact v

theorem kernel_step {w after : World V} {e : Event V} (owned : Owned w)
    (step : FileStep w e after) : KernelStep w.opened e after.opened := by
  cases step with
  | makes fresh => exact .stays rfl rfl
  | adopts fresh valid new => exact .opens new rfl rfl
  | readopts fresh valid owned => exact .stays rfl rfl
  | movesFrom fresh there => exact .stays rfl rfl
  | assigns here there => exact .stays rfl rfl
  | releases here => exact .stays rfl rfl
  | resets here => exact kernel_reset rfl rfl fun valid => (held_live owned here valid).1
  | destroys here => exact kernel_reset rfl rfl fun valid => (held_live owned here valid).1
  | @disposes fd mine =>
    have there := owned.released mine
    refine .closes there rfl ?_
    change some (close w.opened fd).1 = _
    rw [close, decide_eq_true there]

theorem owned_step {w after : World V} {e : Event V} (owned : Owned w)
    (step : FileStep w e after) : Owned after := by
  cases step with
  | @makes v fresh =>
    have same : slots { w with objects := update w.objects v (some (-1)) } = slots w := by
      have holds := holds_update w v (some (-1))
      have nothing : (slots w).holds v = none := congrArg (Option.filter isOpen) fresh
      rw [filter_closed, ← nothing, update_eq_self] at holds
      exact congrArg (fun h => (⟨h, (slots w).live⟩ : Slots V CInt)) holds
    exact ⟨by rw [same]; exact owned.exact, owned.released⟩
  | @adopts v fd fresh valid new =>
    have apart : fd ∉ w.released := fun mine => new (owned.released mine)
    refine owned_fill owned fresh valid (fun old => new old.1)
      (owned.released.trans (Finset.subset_insert fd w.opened)) ?_
    ext x
    simp only [Finset.mem_insert, Set.mem_insert_iff, slots, Set.mem_ofPred_eq]
    constructor
    · rintro ⟨rfl | there, mine⟩
      · exact Or.inl rfl
      · exact Or.inr ⟨there, mine⟩
    · rintro (rfl | ⟨there, mine⟩)
      · exact ⟨Or.inl rfl, apart⟩
      · exact ⟨Or.inr there, mine⟩
  | @readopts v fd fresh valid had =>
    refine owned_fill owned fresh valid (fun old => old.2 had)
      ((Finset.erase_subset fd w.released).trans owned.released) ?_
    ext x
    simp only [Finset.mem_erase, Set.mem_insert_iff, slots, Set.mem_ofPred_eq]
    constructor
    · rintro ⟨there, free⟩
      by_cases same : x = fd
      · exact Or.inl same
      · exact Or.inr ⟨there, fun mine => free ⟨same, mine⟩⟩
    · rintro (rfl | ⟨there, mine⟩)
      · exact ⟨owned.released had, fun other => other.1 rfl⟩
      · exact ⟨there, fun other => mine other.2⟩
  | @movesFrom v u fd fresh there =>
    have apart : u ≠ v := by
      rintro rfl
      cases fresh.symm.trans there
    refine owned_swap (v := v) (u := u) owned ?_ ?_ fun k other other' => ?_
    · rw [update_self, there]
      rfl
    · rw [update_of_ne apart, update_self, fresh]
      exact filter_closed
    · rw [update_of_ne other, update_of_ne other']
  | @assigns v u fd fd' here there =>
    refine owned_swap (v := v) (u := u) owned ?_ ?_ fun k other other' => ?_
    · by_cases same : v = u
      · rw [← same, update_self, here]
      · rw [update_of_ne same, update_self, there]
    · rw [update_self, here]
    · rw [update_of_ne other', update_of_ne other]
  | @releases v fd here =>
    refine owned_take owned here filter_closed ?_ fun x => ?_
    · split
      · exact Finset.insert_subset (held_live owned here ‹_›).1 owned.released
      · exact owned.released
    · cases valid : isOpen fd with
      | true =>
        rw [if_pos rfl, Finset.mem_insert, not_or]
        exact ⟨fun ⟨there, other, mine⟩ => ⟨⟨there, mine⟩, fun ⟨_, same⟩ => other same⟩,
          fun ⟨⟨there, mine⟩, other⟩ => ⟨there, fun same => other ⟨rfl, same⟩, mine⟩⟩
      | false =>
        rw [if_neg Bool.false_ne_true]
        exact ⟨fun inside => ⟨inside, fun ⟨wrong, _⟩ => Bool.false_ne_true wrong⟩, And.left⟩
  | @resets v fd here =>
    exact owned_take owned here (reset_content _ fd) (reset_released owned here) (reset_left w fd)
  | @destroys v fd here =>
    exact owned_take owned here rfl (reset_released owned here) (reset_left w fd)
  | @disposes fd mine =>
    have live : {x | x ∈ w.opened.erase fd ∧ x ∉ w.released.erase fd} = (slots w).live := by
      ext x
      simp only [Finset.mem_erase, slots, Set.mem_ofPred_eq]
      constructor
      · rintro ⟨⟨other, there⟩, free⟩
        exact ⟨there, fun taken => free ⟨other, taken⟩⟩
      · rintro ⟨there, free⟩
        have other : x ≠ fd := by
          rintro rfl
          exact free mine
        exact ⟨⟨other, there⟩, fun taken => free taken.2⟩
    have exact' := owned.exact
    rw [show slots w = ⟨(slots w).holds, (slots w).live⟩ from rfl, ← live] at exact'
    exact ⟨exact', Finset.erase_subset_erase fd owned.released⟩

/-! ## Whole programs -/

/-- How often the kernel gave out a descriptor, and how often it was closed. -/
def opens (past : List (Event V)) : List CInt := past.filterMap Event.opens

def closes (past : List (Event V)) : List Closed := past.filterMap Event.closed

/-- Each descriptor is open now or was closed as often as it was opened, and each `close`
found its descriptor open. -/
structure Accounted (past : List (Event V)) (w : World V) : Prop where
  owned : Owned w
  found : ∀ c ∈ closes past, c.found = true
  balanced : ∀ fd, (opens past).count fd =
    ((closes past).map Closed.fd).count fd + if fd ∈ w.opened then 1 else 0

theorem accounted_step {past : List (Event V)} {w after : World V} {e : Event V}
    (before : Accounted past w) (step : FileStep w e after) : Accounted (past ++ [e]) after := by
  have opened : opens (past ++ [e]) = opens past ++ e.opens.toList := filterMap_snoc _ past e
  have closed : closes (past ++ [e]) = closes past ++ e.closed.toList := filterMap_snoc _ past e
  have kernel := kernel_step before.owned step
  refine ⟨owned_step before.owned step, fun c member => ?_, fun fd => ?_⟩
  · rw [closed] at member
    rcases List.mem_append.mp member with old | now
    · exact before.found c old
    · generalize after.opened = left at kernel
      cases kernel with
      | opens new gets silent =>
        rw [silent] at now
        cases now
      | closes there silent calls =>
        rw [calls] at now
        rw [List.mem_singleton.mp now]
      | stays silent quiet =>
        rw [quiet] at now
        cases now
  · have balance := before.balanced fd
    rw [opened, closed, List.map_append, List.count_append, List.count_append, balance]
    generalize after.opened = left at kernel
    cases kernel with
    | @opens fd' new gets silent =>
      rw [gets, silent]
      by_cases same : fd = fd'
      · rw [same, if_neg new, if_pos (Finset.mem_insert_self fd' w.opened)]
        simp
      · simp [same, Ne.symm same]
    | @closes fd' there silent calls =>
      rw [silent, calls]
      by_cases same : fd = fd'
      · rw [same, if_pos there, if_neg (Finset.notMem_erase fd' w.opened)]
        simp
      · simp [same, Ne.symm same]
    | stays silent quiet =>
      rw [silent, quiet]
      simp

/-- In every program, `close` is called for open descriptors only and at most once for each
that was opened. A descriptor is open exactly as long as one object holds it or as it was
released. -/
theorem descriptors_accounted {past : List (Event V)} {w : World V}
    (path : Path FileStep empty past w) :
    (∀ c ∈ closes past, c.found = true) ∧
      (∀ fd, (opens past).count fd =
        ((closes past).map Closed.fd).count fd + if fd ∈ w.opened then 1 else 0) ∧
      (∀ fd, fd ∈ w.opened ↔ fd ∈ w.released ∨ ∃ v, (w.objects v).filter isOpen = some fd) ∧
      ∀ fd ∈ w.opened, fd ∉ w.released → ∃! v, (w.objects v).filter isOpen = some fd := by
  have start : Accounted [] (empty : World V) := by
    refine ⟨⟨(exact_iff _).mpr fun o => ⟨?_, ?_⟩, subset_rfl⟩, nofun, fun _ => rfl⟩
    · simp [slots, empty]
    · simp [slots, empty]
  obtain ⟨owned, found, balanced⟩ :=
    history_invariant Accounted start (fun _ _ _ _ => accounted_step) path
  refine ⟨found, balanced, fun fd => ⟨fun there => ?_, ?_⟩, fun fd there free => ?_⟩
  · by_cases mine : fd ∈ w.released
    · exact Or.inl mine
    · exact Or.inr ((owned.exact.1 fd).mp ⟨there, mine⟩)
  · rintro (mine | held)
    · exact owned.released mine
    · exact ((owned.exact.1 fd).mpr held).1
  · exact ((exact_iff _).mp owned.exact fd).2 ⟨there, free⟩

/-- A descriptor is moved into a second object and closed there. The number is given out
again, released and adopted, assigned to that object and closed when it is destroyed. -/
theorem descriptors_accounted_moved :
    ∃ (past : List (Event Bool)) (w : World Bool), Path FileStep empty past w ∧
      closes past = [⟨3, true⟩, ⟨3, true⟩] ∧ (∀ c ∈ closes past, c.found = true) ∧
      w.opened = ∅ := by
  have opened := Path.start.snoc (@FileStep.adopts Bool _ empty true 3 rfl rfl (by decide))
  have moved := opened.snoc (@FileStep.movesFrom Bool _ _ false true 3 rfl rfl)
  have destroyed := moved.snoc (@FileStep.destroys Bool _ _ true (-1) rfl)
  have closed := destroyed.snoc (@FileStep.resets Bool _ _ false 3 rfl)
  have again := closed.snoc (@FileStep.adopts Bool _ _ true 3 rfl rfl (by decide))
  have released := again.snoc (@FileStep.releases Bool _ _ true 3 rfl)
  have emptied := released.snoc (@FileStep.destroys Bool _ _ true (-1) rfl)
  have adopted := emptied.snoc (@FileStep.readopts Bool _ _ true 3 rfl rfl (by decide))
  have assigned := adopted.snoc (@FileStep.assigns Bool _ _ false true (-1) 3 rfl rfl)
  have last := assigned.snoc (@FileStep.destroys Bool _ _ false 3 rfl)
  exact ⟨_, _, last, by decide, (descriptors_accounted last).1, by decide⟩

end OwnedFiles
