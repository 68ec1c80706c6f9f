import Mathlib.Logic.Function.Basic
import Mathlib.Logic.Relation
import Redstone.StepRuns

/-!
# Locks taken in an order

Threads run scripts that take and give back locks. Every script takes a lock only above all
locks it holds, gives them back innermost first, and sleeps only without any. Then whoever
waits for a lock waits, through owners of higher and higher locks, for a thread that can go
on now.
-/

namespace LockOrder

open Function StepRuns

universe u
variable {τ L : Type u}

/-- `sleep` is the inside of a wait on a condition variable, which may end at any time. -/
inductive Act (L : Type u) where
  | lock (l : L)
  | unlock (l : L)
  | sleep

structure State (τ L : Type u) where
  owner : L → Option τ
  todo : τ → List (Act L)

def idle : State τ L := ⟨fun _ => none, fun _ => []⟩

inductive Event (τ L : Type u) where
  | calls (t : τ) (script : List (Act L))
  | locks (t : τ) (l : L)
  | unlocks (t : τ) (l : L)
  | wakes (t : τ)

inductive LockStep [DecidableEq τ] [DecidableEq L] (Script : List (Act L) → Prop)
    (s : State τ L) : Event τ L → State τ L → Prop where
  | calls {t : τ} {script : List (Act L)} (free : s.todo t = []) (allowed : Script script) :
      LockStep Script s (.calls t script) { s with todo := update s.todo t script }
  | locks {t : τ} {l : L} {rest : List (Act L)} (next : s.todo t = .lock l :: rest)
      (free : s.owner l = none) :
      LockStep Script s (.locks t l)
        ⟨update s.owner l (some t), update s.todo t rest⟩
  | unlocks {t : τ} {l : L} {rest : List (Act L)} (next : s.todo t = .unlock l :: rest) :
      LockStep Script s (.unlocks t l) ⟨update s.owner l none, update s.todo t rest⟩
  | wakes {t : τ} {rest : List (Act L)} (next : s.todo t = .sleep :: rest) :
      LockStep Script s (.wakes t) { s with todo := update s.todo t rest }

/-- `t` waits for a lock that `u` has. -/
def WaitsFor (s : State τ L) (t u : τ) : Prop :=
  ∃ l rest, s.todo t = .lock l :: rest ∧ s.owner l = some u

/-- The next step of `t` gives a lock back, or takes one that is free. -/
def Able (s : State τ L) (t : τ) : Prop :=
  (∃ l rest, s.todo t = .unlock l :: rest) ∨
    ∃ l rest, s.todo t = .lock l :: rest ∧ s.owner l = none

/-! ## Ordered scripts -/

/-- The script leads from the locks `held` to the locks `left`, taking each one above all
that it holds then. -/
def Ordered (rank : L → Nat) (left : List L) : (held : List L) → List (Act L) → Prop
  | held, [] => held = left
  | held, .lock l :: rest => (∀ h ∈ held, rank h < rank l) ∧ Ordered rank left (l :: held) rest
  | [], .unlock _ :: _ => False
  | h :: held, .unlock l :: rest => h = l ∧ Ordered rank left held rest
  | held, .sleep :: rest => held = [] ∧ Ordered rank left held rest

/-- The scope of a lock. -/
def guarded (l : L) (inner : List (Act L)) : List (Act L) := .lock l :: (inner ++ [.unlock l])

variable {rank : L → Nat}

theorem ordered_append {held mid left : List L} {first second : List (Act L)}
    (begins : Ordered rank mid held first) (ends : Ordered rank left mid second) :
    Ordered rank left held (first ++ second) := by
  induction first generalizing held with
  | nil =>
    obtain rfl : held = mid := begins
    exact ends
  | cons act first ih =>
    cases act with
    | lock l => exact ⟨begins.1, ih begins.2⟩
    | unlock l =>
      cases held with
      | nil => exact begins.elim
      | cons h held => exact ⟨begins.1, ih begins.2⟩
    | sleep => exact ⟨begins.1, ih begins.2⟩

theorem ordered_guarded {held : List L} {l : L} {inner : List (Act L)}
    (above : ∀ h ∈ held, rank h < rank l)
    (ordered : Ordered rank (l :: held) (l :: held) inner) :
    Ordered rank held held (guarded l inner) :=
  ⟨above, ordered_append ordered ⟨rfl, rfl⟩⟩

theorem ordered_flatten {held : List L} {parts : List (List (Act L))}
    (ordered : ∀ part ∈ parts, Ordered rank held held part) :
    Ordered rank held held parts.flatten := by
  induction parts with
  | nil => rfl
  | cons part parts ih =>
    exact ordered_append (ordered part List.mem_cons_self)
      (ih fun other member => ordered other (List.mem_cons_of_mem part member))

/-! ## Reachable states -/

/-- The locks that the threads hold, innermost first, fit what they still have to do. -/
structure Consistent (rank : L → Nat) (s : State τ L) (held : τ → List L) : Prop where
  owner : ∀ l t, s.owner l = some t ↔ l ∈ held t
  nodup : ∀ t, (held t).Nodup
  ordered : ∀ t, Ordered rank [] (held t) (s.todo t)

theorem consistent_idle : Consistent rank (idle : State τ L) fun _ => [] := by
  refine ⟨fun l t => ?_, fun _ => List.nodup_nil, fun _ => rfl⟩
  simp [idle]

/-- A thread that holds a lock goes on with giving one back or with a higher lock. -/
theorem holder_next {s : State τ L} {held : τ → List L} (consistent : Consistent rank s held)
    {l : L} {t : τ} (owns : s.owner l = some t) :
    (∃ l' rest, s.todo t = .unlock l' :: rest) ∨
      ∃ l' rest, s.todo t = .lock l' :: rest ∧ rank l < rank l' := by
  have mine := (consistent.owner l t).mp owns
  have ordered := consistent.ordered t
  cases todo : s.todo t with
  | nil =>
    rw [todo] at ordered
    rw [show held t = [] from ordered] at mine
    cases mine
  | cons act rest =>
    rw [todo] at ordered
    cases act with
    | lock l' => exact Or.inr ⟨l', rest, rfl, ordered.1 l mine⟩
    | unlock l' => exact Or.inl ⟨l', rest, rfl⟩
    | sleep =>
      rw [show held t = [] from ordered.1] at mine
      cases mine

/-- A thread that sleeps holds no lock. -/
theorem sleeper_holds_none {s : State τ L} {held : τ → List L}
    (consistent : Consistent rank s held) {t : τ} {rest : List (Act L)}
    (asleep : s.todo t = .sleep :: rest) (l : L) : s.owner l ≠ some t := by
  intro owns
  rcases holder_next consistent owns with ⟨l', rest', next⟩ | ⟨l', rest', next, -⟩ <;>
    cases asleep.symm.trans next

/-- Whoever waits for a lock waits in the end for a thread that can go on. -/
theorem leads_to_able {s : State τ L} {held : τ → List L} {bound : Nat}
    (consistent : Consistent rank s held) (bounded : ∀ l, rank l < bound) {t u : τ}
    (waits : WaitsFor s t u) : ∃ v, Relation.TransGen (WaitsFor s) t v ∧ Able s v := by
  obtain ⟨l, rest, next, owns⟩ := waits
  obtain ⟨distance, above⟩ : ∃ distance, bound ≤ rank l + distance :=
    ⟨bound, Nat.le_add_left _ _⟩
  -- Induction on how far the lock is below the highest one.
  induction distance generalizing t u l rest with
  | zero => exact absurd (bounded l) (Nat.not_lt.mpr above)
  | succ distance ih =>
    have first : WaitsFor s t u := ⟨l, rest, next, owns⟩
    rcases holder_next consistent owns with ⟨l', rest', gives⟩ | ⟨l', rest', takes, higher⟩
    · exact ⟨u, .single first, Or.inl ⟨l', rest', gives⟩⟩
    · cases owner : s.owner l' with
      | none => exact ⟨u, .single first, Or.inr ⟨l', rest', takes, owner⟩⟩
      | some v =>
        obtain ⟨w, chain, able⟩ := ih l' rest' takes owner (by omega)
        exact ⟨w, .head first chain, able⟩

variable [DecidableEq τ]

/-- What changes when only the script of one thread goes on. -/
theorem ordered_update {s : State τ L} {held : τ → List L} (consistent : Consistent rank s held)
    {t : τ} {script : List (Act L)} {locks : List L} (ordered : Ordered rank [] locks script)
    (u : τ) : Ordered rank [] (update held t locks u) (update s.todo t script u) := by
  by_cases here : u = t
  · rw [here, update_self, update_self]
    exact ordered
  · rw [update_of_ne here, update_of_ne here]
    exact consistent.ordered u

theorem nodup_update {s : State τ L} {held : τ → List L} (consistent : Consistent rank s held)
    {t : τ} {locks : List L} (nodup : locks.Nodup) (u : τ) : (update held t locks u).Nodup := by
  by_cases here : u = t
  · rw [here, update_self]
    exact nodup
  · rw [update_of_ne here]
    exact consistent.nodup u

variable [DecidableEq L]

theorem consistent_locks {s : State τ L} {held : τ → List L} (consistent : Consistent rank s held)
    {t : τ} {l : L} {rest : List (Act L)} (next : s.todo t = .lock l :: rest)
    (free : s.owner l = none) :
    Consistent rank ⟨update s.owner l (some t), update s.todo t rest⟩
      (update held t (l :: held t)) := by
  have ordered := consistent.ordered t
  rw [next] at ordered
  have absent : ∀ u, l ∉ held u := by
    intro u mine
    rw [(consistent.owner l u).mpr mine] at free
    cases free
  refine ⟨fun l' u => ?_, nodup_update consistent (List.nodup_cons.mpr
    ⟨absent t, consistent.nodup t⟩), ordered_update consistent ordered.2⟩
  change update s.owner l (some t) l' = some u ↔ l' ∈ update held t (l :: held t) u
  by_cases here : u = t
  · rw [here, update_self, List.mem_cons, ← consistent.owner]
    by_cases taken : l' = l
    · rw [taken, update_self]
      simp
    · rw [update_of_ne taken]
      simp [taken]
  · rw [update_of_ne here, ← consistent.owner]
    by_cases taken : l' = l
    · rw [taken, update_self, free]
      simp [Ne.symm here]
    · rw [update_of_ne taken]

theorem consistent_unlocks {s : State τ L} {held : τ → List L}
    (consistent : Consistent rank s held) {t : τ} {l : L} {rest : List (Act L)} {locks : List L}
    (next : s.todo t = .unlock l :: rest) (mine : held t = l :: locks) :
    Consistent rank ⟨update s.owner l none, update s.todo t rest⟩ (update held t locks) := by
  have ordered := consistent.ordered t
  have nodup := consistent.nodup t
  rw [mine] at ordered nodup
  rw [next] at ordered
  have owns : s.owner l = some t := by
    rw [consistent.owner, mine]
    exact List.mem_cons_self
  refine ⟨fun l' u => ?_, nodup_update consistent (List.nodup_cons.mp nodup).2,
    ordered_update consistent ordered.2⟩
  change update s.owner l none l' = some u ↔ l' ∈ update held t locks u
  by_cases here : u = t
  · rw [here, update_self]
    by_cases given : l' = l
    · rw [given, update_self]
      simp [(List.nodup_cons.mp nodup).1]
    · rw [update_of_ne given, consistent.owner, mine, List.mem_cons]
      simp [given]
  · rw [update_of_ne here, ← consistent.owner]
    by_cases given : l' = l
    · rw [given, update_self, owns]
      simp [Ne.symm here]
    · rw [update_of_ne given]

theorem consistent_step {Script : List (Act L) → Prop}
    (disciplined : ∀ script, Script script → Ordered rank [] [] script) {s after : State τ L}
    {e : Event τ L} {held : τ → List L} (consistent : Consistent rank s held)
    (step : LockStep Script s e after) : ∃ held, Consistent rank after held := by
  have same : ∀ t, update held t (held t) = held := fun t => update_eq_self t held
  cases step with
  | @calls t script free allowed =>
    have nothing : held t = [] := by
      have ordered := consistent.ordered t
      rwa [free] at ordered
    have begins : Ordered rank [] (held t) script := by
      rw [nothing]
      exact disciplined script allowed
    refine ⟨held, consistent.owner, consistent.nodup, fun u => ?_⟩
    have ordered := ordered_update consistent (t := t) begins u
    rwa [same] at ordered
  | @locks t l rest next free => exact ⟨_, consistent_locks consistent next free⟩
  | @unlocks t l rest next =>
    have ordered := consistent.ordered t
    rw [next] at ordered
    cases mine : held t with
    | nil =>
      rw [mine] at ordered
      exact ordered.elim
    | cons h locks =>
      rw [mine] at ordered
      obtain rfl : h = l := ordered.1
      exact ⟨_, consistent_unlocks consistent next mine⟩
  | @wakes t rest next =>
    have ordered := consistent.ordered t
    rw [next] at ordered
    refine ⟨held, consistent.owner, consistent.nodup, fun u => ?_⟩
    have ordered := ordered_update consistent (t := t) ordered.2 u
    rwa [same] at ordered

theorem Able.step {Script : List (Act L) → Prop} {s : State τ L}
    {t : τ} (able : Able s t) :
    ∃ l after, LockStep Script s (.unlocks t l) after ∨ LockStep Script s (.locks t l) after := by
  rcases able with ⟨l, rest, gives⟩ | ⟨l, rest, takes, free⟩
  · exact ⟨l, _, Or.inl (.unlocks gives)⟩
  · exact ⟨l, _, Or.inr (.locks takes free)⟩

theorem consistent_path {Script : List (Act L) → Prop}
    (disciplined : ∀ script, Script script → Ordered rank [] [] script) {s : State τ L}
    {past : List (Event τ L)} (path : Path (LockStep Script) idle past s) :
    ∃ held, Consistent rank s held :=
  history_invariant (fun _ s => ∃ held, Consistent rank s held) ⟨_, consistent_idle⟩
    (fun _ _ _ _ ⟨_, consistent⟩ step => consistent_step disciplined consistent step) path

end LockOrder
