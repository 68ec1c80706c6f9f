import Redstone.MachineWords
import Redstone.Monitors

/-!
# The barrier

`wait` is a monitor call: an arrival under the lock, and after each wakeup a look at the
epoch. It returns nothing; the results here are the generation the call arrived in. While
fast threads arrive for the next generation, slow ones may still be leaving the last one,
so the invariant ties the counter and the epoch to who is blocked and with which epoch.
-/

namespace Barriers

open MachineWords Monitors StepRuns Function

/-- The fields of `barrier` other than the mutex and the condition variable. -/
structure Barrier where
  count : U64
  current : U64
  epoch : U64
  deriving DecidableEq

def made (count : U64) : Barrier := ⟨count, count, 0⟩

/-- `wait` up to where it returns or blocks for the first time. -/
def arrive (b : Barrier) : Outcome Barrier U64 U64 :=
  let current := b.current - 1
  if current = 0 then ⟨{ b with current := b.count, epoch := b.epoch + 1 }, .all, .leaves b.epoch⟩
  else ⟨{ b with current }, .none, .waits b.epoch⟩

/-- The condition of the loop, after a wakeup. -/
def recheck (epoch : U64) (b : Barrier) : Outcome Barrier U64 U64 :=
  if epoch = b.epoch then ⟨b, .none, .waits epoch⟩ else ⟨b, .none, .leaves epoch⟩

def barrier : Program Unit Barrier U64 U64 where
  enter _ b out := out = arrive b
  resume epoch b out := out = recheck epoch b

abbrev BarrierEvent (τ : Type) := Event τ Unit U64 U64

variable {τ : Type}

/-- The generation of an arrival. -/
def arrived : BarrierEvent τ → Option U64
  | .enter _ _ (.leaves g) => some g
  | .enter _ _ (.waits g) => some g
  | _ => none

/-- The generation in which a `wait` arrived that now returns. -/
def returned : BarrierEvent τ → Option U64
  | .enter _ _ (.leaves g) => some g
  | .resume _ _ (.leaves g) => some g
  | _ => none

def arrivals (past : List (BarrierEvent τ)) : List U64 := past.filterMap arrived

/-- The threads that wait for generation `g` to end. -/
def waiting (m : Monitor τ Barrier U64) (g : U64) : Set τ := {t | (m.status t).blocked = some g}

/-- The counter, the epoch, the arrivals of all generations and the blocked threads. -/
structure Counts (count : U64) (past : List (BarrierEvent τ)) (m : Monitor τ Barrier U64) :
    Prop where
  count_eq : m.shared.count = count
  positive : 1 ≤ m.shared.current.toNat
  bounded : m.shared.current.toNat ≤ count.toNat
  total : (arrivals past).length =
    m.shared.epoch.toNat * count.toNat + (count.toNat - m.shared.current.toNat)
  complete : ∀ g : U64, g.toNat < m.shared.epoch.toNat → (arrivals past).count g = count.toNat
  growing : (arrivals past).count m.shared.epoch = count.toNat - m.shared.current.toNat
  coming : ∀ g : U64, m.shared.epoch.toNat < g.toNat → (arrivals past).count g = 0
  here : (waiting m m.shared.epoch).encard =
    ((count.toNat - m.shared.current.toNat : Nat) : ℕ∞)
  older : ∀ t g, (m.status t).blocked = some g → g.toNat ≤ m.shared.epoch.toNat
  sound : Sound (fun epoch b => epoch = b.epoch) m

theorem counts_made {count : U64} (threads : 1 ≤ count.toNat) :
    Counts (τ := τ) count [] (idle (made count)) where
  count_eq := rfl
  positive := threads
  bounded := Nat.le_refl _
  total := by
    change 0 = 0 * _ + (count.toNat - count.toNat)
    omega
  complete := by
    intro g before
    exact absurd before (Nat.not_lt_zero _)
  growing := (Nat.sub_self _).symm
  coming := fun _ _ => rfl
  here := by
    have nobody : waiting (τ := τ) (idle (made count)) 0 = ∅ := by
      apply Set.eq_empty_iff_forall_notMem.mpr
      intro t blocked
      cases blocked
    change (waiting (τ := τ) (idle (made count)) 0).encard =
      ((count.toNat - count.toNat : Nat) : ℕ∞)
    rw [nobody, Set.encard_empty, Nat.sub_self]
    rfl
  older := by
    intro t g blocked
    cases blocked
  sound := sound_idle _

/-- An arrival is not the last one and blocks, or it is, and starts the next epoch. -/
theorem arrive_cases (b : Barrier) :
    (b.current ≠ 1 ∧ arrive b = ⟨{ b with current := b.current - 1 }, .none, .waits b.epoch⟩) ∨
      (b.current = 1 ∧
        arrive b = ⟨{ b with current := b.count, epoch := b.epoch + 1 }, .all,
          .leaves b.epoch⟩) := by
  have last : b.current - 1 = 0 ↔ b.current = 1 := by
    constructor
    · intro zero
      bv_omega
    · intro one
      rw [one]
      rfl
  by_cases one : b.current = 1
  · exact Or.inr ⟨one, if_pos (last.mpr one)⟩
  · exact Or.inl ⟨one, if_neg (fun zero => one (last.mp zero))⟩

theorem arrivals_snoc (past : List (BarrierEvent τ)) (e : BarrierEvent τ) :
    arrivals (past ++ [e]) = arrivals past ++ (arrived e).toList :=
  filterMap_snoc arrived past e

theorem count_snoc (gs : List U64) (e g : U64) :
    (gs ++ [e]).count g = gs.count g + if e = g then 1 else 0 := by
  rw [List.count_append, List.count_singleton]
  simp

/-- The next epoch, when the epochs have not wrapped around. -/
theorem epoch_succ {count : U64} {past : List (BarrierEvent τ)} {m : Monitor τ Barrier U64}
    (counts : Counts count past m) (last : m.shared.current = 1)
    (few : (arrivals past).length + 1 < 2 ^ 64 * count.toNat) :
    (m.shared.epoch + 1).toNat = m.shared.epoch.toNat + 1 := by
  have bounded := counts.bounded
  have one : m.shared.current.toNat = 1 := congrArg BitVec.toNat last
  have total := counts.total
  rw [one] at bounded total
  have below : m.shared.epoch.toNat + 1 < 2 ^ 64 := by
    by_contra wraps
    have all : 2 ^ 64 * count.toNat ≤ (m.shared.epoch.toNat + 1) * count.toNat :=
      Nat.mul_le_mul_right _ (Nat.le_of_not_lt wraps)
    rw [Nat.add_mul] at all
    omega
  rw [BitVec.toNat_add]
  exact Nat.mod_eq_of_lt below

/-- What no arrival does: the barrier stays, and nobody of its epoch gets out or in. -/
theorem counts_keep {count : U64} {past : List (BarrierEvent τ)} {m after : Monitor τ Barrier U64}
    {e : BarrierEvent τ} (counts : Counts count past m) (silent : arrived e = none)
    (shared : after.shared = m.shared)
    (same : ∀ u, (after.status u).blocked = (m.status u).blocked ∨
      ((after.status u).blocked = none ∧ (m.status u).blocked ≠ some m.shared.epoch))
    (sound : Sound (fun epoch b => epoch = b.epoch) after) : Counts count (past ++ [e]) after := by
  have arrivals_eq : arrivals (past ++ [e]) = arrivals past := by
    rw [arrivals_snoc, silent, Option.toList_none, List.append_nil]
  have waiting_eq : waiting after m.shared.epoch = waiting m m.shared.epoch := by
    ext u
    change (after.status u).blocked = _ ↔ (m.status u).blocked = _
    rcases same u with kept | ⟨out, other⟩
    · rw [kept]
    · rw [out]
      constructor
      · intro impossible
        cases impossible
      · intro current
        exact absurd current other
  constructor
  · rw [shared]
    exact counts.count_eq
  · rw [shared]
    exact counts.positive
  · rw [shared]
    exact counts.bounded
  · rw [shared, arrivals_eq]
    exact counts.total
  · rw [shared, arrivals_eq]
    exact counts.complete
  · rw [shared, arrivals_eq]
    exact counts.growing
  · rw [shared, arrivals_eq]
    exact counts.coming
  · rw [shared, waiting_eq]
    exact counts.here
  · intro u g blocked
    rw [shared]
    rcases same u with kept | ⟨out, _⟩
    · exact counts.older u g (kept.symm.trans blocked)
    · rw [out] at blocked
      cases blocked
  · exact sound

variable [DecidableEq τ]

abbrev BarrierStep : Monitor τ Barrier U64 → BarrierEvent τ → Monitor τ Barrier U64 → Prop :=
  Step barrier

/-- Nobody sleeps through the end of its generation. -/
theorem sound_barrier {m after : Monitor τ Barrier U64} {e : BarrierEvent τ}
    (step : BarrierStep m e after) (sound : Sound (fun epoch b => epoch = b.epoch) m) :
    Sound (fun epoch b => epoch = b.epoch) after := by
  have sections : ∀ out, barrier.Runs m.shared out →
      (out.signal = .none ∧ out.shared.epoch = m.shared.epoch ∧
        ∀ k, out.next = .waits k → k = out.shared.epoch) ∨
      (out.signal = .all ∧ ∀ k, out.next ≠ .waits k) := by
    rintro out (⟨_, rfl⟩ | ⟨epoch, rfl⟩)
    · rcases arrive_cases m.shared with ⟨_, blocks⟩ | ⟨_, ends⟩
      · rw [blocks]
        refine Or.inl ⟨rfl, rfl, ?_⟩
        rintro k ⟨⟩
        rfl
      · rw [ends]
        refine Or.inr ⟨rfl, ?_⟩
        rintro k ⟨⟩
    · refine Or.inl ?_
      by_cases current : epoch = m.shared.epoch
      · rw [recheck, if_pos current]
        refine ⟨rfl, rfl, ?_⟩
        rintro k ⟨⟩
        exact current
      · rw [recheck, if_neg current]
        refine ⟨rfl, rfl, ?_⟩
        rintro k ⟨⟩
  refine sound_step ?_ ?_ ?_ step sound
  · intro out k runs waits
    rcases sections out runs with ⟨_, _, current⟩ | ⟨_, leaves⟩
    · exact current k waits
    · exact absurd waits (leaves k)
  · intro out k runs silent safe
    rcases sections out runs with ⟨_, kept, _⟩ | ⟨all, _⟩
    · rw [kept]
      exact safe
    · rw [all] at silent
      cases silent
  · intro out runs one
    rcases sections out runs with ⟨none, _⟩ | ⟨all, _⟩
    · rw [none] at one
      cases one
    · rw [all] at one
      cases one

theorem counts_blocks {count : U64} {past : List (BarrierEvent τ)} {m : Monitor τ Barrier U64}
    {t : τ} {status : τ → Status U64} (counts : Counts count past m)
    (free : m.status t = .outside) (more : m.shared.current ≠ 1)
    (others : ∀ u, (status u).blocked = (m.status u).blocked)
    (sound : Sound (fun epoch b => epoch = b.epoch)
      ⟨{ m.shared with current := m.shared.current - 1 },
        update status t (.asleep m.shared.epoch)⟩) :
    Counts count (past ++ [.enter t () (.waits m.shared.epoch)])
      ⟨{ m.shared with current := m.shared.current - 1 },
        update status t (.asleep m.shared.epoch)⟩ := by
  have positive := counts.positive
  have bounded := counts.bounded
  have two : 2 ≤ m.shared.current.toNat := by
    have other : m.shared.current.toNat ≠ 1 := fun one => more (BitVec.eq_of_toNat_eq one)
    omega
  have left : (m.shared.current - 1).toNat = m.shared.current.toNat - 1 := by bv_omega
  have one_more : arrivals (past ++ [.enter t () (.waits m.shared.epoch)]) =
      arrivals past ++ [m.shared.epoch] := arrivals_snoc past _
  have outside : t ∉ waiting m m.shared.epoch := by
    intro blocked
    rw [waiting, Set.mem_ofPred_eq, free] at blocked
    cases blocked
  have after : waiting (τ := τ) ⟨{ m.shared with current := m.shared.current - 1 },
      update status t (.asleep m.shared.epoch)⟩ m.shared.epoch =
      insert t (waiting m m.shared.epoch) := by
    ext u
    change (update status t _ u).blocked = _ ↔ u = t ∨ (m.status u).blocked = _
    by_cases self : u = t
    · rw [self, update_self]
      simp [Status.blocked]
    · rw [update_of_ne self, others]
      simp [self]
  constructor
  · exact counts.count_eq
  · change 1 ≤ (m.shared.current - 1).toNat
    omega
  · change (m.shared.current - 1).toNat ≤ _
    omega
  · have total := counts.total
    rw [one_more, List.length_append, List.length_singleton]
    change _ = m.shared.epoch.toNat * _ + (_ - (m.shared.current - 1).toNat)
    omega
  · intro g before
    have other : m.shared.epoch ≠ g := by
      rintro rfl
      exact absurd before (Nat.lt_irrefl _)
    rw [one_more, count_snoc, if_neg other]
    exact counts.complete g before
  · have growing := counts.growing
    rw [one_more]
    change (arrivals past ++ [m.shared.epoch]).count m.shared.epoch =
      count.toNat - (m.shared.current - 1).toNat
    rw [count_snoc, if_pos rfl]
    omega
  · intro g later
    have other : m.shared.epoch ≠ g := by
      rintro rfl
      exact absurd later (Nat.lt_irrefl _)
    rw [one_more, count_snoc, if_neg other]
    exact counts.coming g later
  · change (waiting _ m.shared.epoch).encard = ((_ - (m.shared.current - 1).toNat : Nat) : ℕ∞)
    rw [after, Set.encard_insert_of_notMem outside, counts.here, left]
    have step : count.toNat - (m.shared.current.toNat - 1) =
        count.toNat - m.shared.current.toNat + 1 := by omega
    rw [step]
    rfl
  · intro u g blocked
    change (update status t _ u).blocked = _ at blocked
    by_cases self : u = t
    · rw [self, update_self] at blocked
      cases blocked
      exact Nat.le_refl _
    · rw [update_of_ne self, others] at blocked
      exact counts.older u g blocked
  · exact sound

/-- The last arrival of a generation. -/
theorem counts_ends {count : U64} {past : List (BarrierEvent τ)} {m : Monitor τ Barrier U64}
    {t : τ} {status : τ → Status U64} (counts : Counts count past m)
    (last : m.shared.current = 1) (few : (arrivals past).length + 1 < 2 ^ 64 * count.toNat)
    (others : ∀ u, (status u).blocked = (m.status u).blocked)
    (sound : Sound (fun epoch b => epoch = b.epoch)
      ⟨{ m.shared with current := m.shared.count, epoch := m.shared.epoch + 1 },
        update status t .outside⟩) :
    Counts count (past ++ [.enter t () (.leaves m.shared.epoch)])
      ⟨{ m.shared with current := m.shared.count, epoch := m.shared.epoch + 1 },
        update status t .outside⟩ := by
  have bounded := counts.bounded
  have one : m.shared.current.toNat = 1 := congrArg BitVec.toNat last
  have total := counts.total
  have growing := counts.growing
  rw [one] at bounded total growing
  have next := epoch_succ counts last few
  have one_more : arrivals (past ++ [.enter t () (.leaves m.shared.epoch)]) =
      arrivals past ++ [m.shared.epoch] := arrivals_snoc past _
  have blocked_before : ∀ u g, (update status t .outside u).blocked = some g →
      g.toNat ≤ m.shared.epoch.toNat := by
    intro u g blocked
    by_cases self : u = t
    · rw [self, update_self] at blocked
      cases blocked
    · rw [update_of_ne self, others] at blocked
      exact counts.older u g blocked
  constructor
  · exact counts.count_eq
  · change 1 ≤ m.shared.count.toNat
    rw [counts.count_eq]
    exact bounded
  · exact Nat.le_of_eq (congrArg BitVec.toNat counts.count_eq)
  · rw [one_more, List.length_append, List.length_singleton]
    change _ = (m.shared.epoch + 1).toNat * _ + (_ - m.shared.count.toNat)
    rw [next, counts.count_eq, Nat.add_mul, Nat.sub_self]
    omega
  · intro g before
    change g.toNat < (m.shared.epoch + 1).toNat at before
    rw [one_more, count_snoc]
    by_cases current : m.shared.epoch = g
    · rw [if_pos current, ← current]
      omega
    · rw [if_neg current]
      have other : g.toNat ≠ m.shared.epoch.toNat :=
        fun same => current (BitVec.eq_of_toNat_eq same.symm)
      exact counts.complete g (by omega)
  · change (arrivals _).count (m.shared.epoch + 1) = count.toNat - m.shared.count.toNat
    have fresh : m.shared.epoch ≠ m.shared.epoch + 1 := by
      intro same
      have numbers := congrArg BitVec.toNat same
      omega
    rw [one_more, count_snoc, if_neg fresh, counts.coming _ (by omega), counts.count_eq]
    omega
  · intro g later
    change (m.shared.epoch + 1).toNat < g.toNat at later
    have other : m.shared.epoch ≠ g := by
      rintro rfl
      omega
    rw [one_more, count_snoc, if_neg other]
    exact counts.coming g (by omega)
  · have nobody : waiting (τ := τ)
        ⟨{ m.shared with current := m.shared.count, epoch := m.shared.epoch + 1 },
          update status t .outside⟩ (m.shared.epoch + 1) = ∅ := by
      apply Set.eq_empty_iff_forall_notMem.mpr
      intro u blocked
      have old := blocked_before u _ blocked
      omega
    change (waiting _ (m.shared.epoch + 1)).encard = ((_ - m.shared.count.toNat : Nat) : ℕ∞)
    rw [nobody, Set.encard_empty, counts.count_eq, Nat.sub_self]
    rfl
  · intro u g blocked
    change g.toNat ≤ (m.shared.epoch + 1).toNat
    have old := blocked_before u g blocked
    omega
  · exact sound

theorem recheck_cases (epoch : U64) (b : Barrier) :
    (epoch = b.epoch ∧ recheck epoch b = ⟨b, .none, .waits epoch⟩) ∨
      (epoch ≠ b.epoch ∧ recheck epoch b = ⟨b, .none, .leaves epoch⟩) := by
  by_cases current : epoch = b.epoch
  · exact Or.inl ⟨current, if_pos current⟩
  · exact Or.inr ⟨current, if_neg current⟩

theorem counts_step {count : U64} {past : List (BarrierEvent τ)}
    {m after : Monitor τ Barrier U64} {e : BarrierEvent τ} (counts : Counts count past m)
    (step : BarrierStep m e after)
    (few : (arrivals (past ++ [e])).length < 2 ^ 64 * count.toNat) :
    Counts count (past ++ [e]) after := by
  have sound := sound_barrier step counts.sound
  cases step with
  | @enter t call out status free runs notified =>
    obtain rfl : out = arrive m.shared := runs
    rcases arrive_cases m.shared with ⟨more, blocks⟩ | ⟨last, ends⟩
    · rw [blocks] at notified sound ⊢
      exact counts_blocks counts free more (blocked_notified notified) sound
    · rw [ends] at notified sound few ⊢
      rw [arrivals_snoc, List.length_append] at few
      exact counts_ends counts last few (blocked_notified notified) sound
  | @resume t epoch out status woken runs notified =>
    obtain rfl : out = recheck epoch m.shared := runs
    have blocked : (m.status t).blocked = some epoch := by rw [woken]; rfl
    rcases recheck_cases epoch m.shared with ⟨current, waits⟩ | ⟨other, leaves⟩
    · rw [waits] at notified sound ⊢
      refine counts_keep counts rfl rfl ?_ sound
      intro u
      refine Or.inl ?_
      rw [blocked_section notified]
      by_cases self : u = t
      · rw [if_pos self, self, blocked]
        rfl
      · rw [if_neg self]
    · rw [leaves] at notified sound ⊢
      refine counts_keep counts rfl rfl ?_ sound
      intro u
      rw [blocked_section notified]
      by_cases self : u = t
      · rw [if_pos self, self, blocked]
        exact Or.inr ⟨rfl, fun same => other (Option.some.inj same)⟩
      · rw [if_neg self]
        exact Or.inl rfl
  | @wake t k asleep =>
    refine counts_keep counts rfl rfl ?_ sound
    exact fun u => Or.inl (blocked_wake asleep u)

theorem counts_path {count : U64} (threads : 1 ≤ count.toNat) {past : List (BarrierEvent τ)}
    {m : Monitor τ Barrier U64} (path : Path BarrierStep (idle (made count)) past m)
    (few : (arrivals past).length < 2 ^ 64 * count.toNat) : Counts count past m := by
  refine history_invariant (fun past m => (arrivals past).length < 2 ^ 64 * count.toNat →
    Counts count past m) (fun _ => counts_made threads) ?_ path few
  intro past m e after counts step few
  refine counts_step (counts ?_) step few
  rw [arrivals_snoc, List.length_append] at few
  omega

/-- A `wait` that returns arrived in a generation that is over. -/
theorem returned_over {count : U64} {past : List (BarrierEvent τ)}
    {m after : Monitor τ Barrier U64} {e : BarrierEvent τ} {g : U64}
    (counts : Counts count past m) (step : BarrierStep m e after) (returns : returned e = some g)
    (few : (arrivals (past ++ [e])).length < 2 ^ 64 * count.toNat) :
    g.toNat < after.shared.epoch.toNat := by
  cases step with
  | @enter t call out status free runs notified =>
    obtain rfl : out = arrive m.shared := runs
    rcases arrive_cases m.shared with ⟨_, blocks⟩ | ⟨last, ends⟩
    · rw [blocks] at returns
      cases returns
    · rw [ends] at returns few ⊢
      rw [arrivals_snoc, List.length_append] at few
      have next := epoch_succ counts last few
      cases returns
      change m.shared.epoch.toNat < (m.shared.epoch + 1).toNat
      omega
  | @resume t epoch out status woken runs notified =>
    obtain rfl : out = recheck epoch m.shared := runs
    rcases recheck_cases epoch m.shared with ⟨_, waits⟩ | ⟨other, leaves⟩
    · rw [waits] at returns
      cases returns
    · rw [leaves] at returns ⊢
      obtain rfl : epoch = g := Option.some.inj returns
      have old := counts.older t epoch (by rw [woken]; rfl)
      have different : epoch.toNat ≠ m.shared.epoch.toNat :=
        fun same => other (BitVec.eq_of_toNat_eq same)
      change epoch.toNat < m.shared.epoch.toNat
      omega
  | wake asleep => cases returns

/-- A thread blocked with a past epoch was woken, and returns when it gets the lock. -/
theorem past_epoch_leaves {count : U64} {past : List (BarrierEvent τ)}
    {m : Monitor τ Barrier U64} {t : τ} {g : U64} (counts : Counts count past m)
    (blocked : (m.status t).blocked = some g) (other : g ≠ m.shared.epoch) :
    m.status t = .woken g ∧ (∃ after, BarrierStep m (.resume t g (.leaves g)) after) ∧
      ∀ next after, BarrierStep m (.resume t g next) after → next = .leaves g := by
  have woken : m.status t = .woken g := by
    cases status : m.status t with
    | outside =>
      rw [status] at blocked
      cases blocked
    | asleep k =>
      rw [status] at blocked
      cases blocked
      exact absurd (counts.sound t g status) other
    | woken k =>
      rw [status] at blocked
      cases blocked
      rfl
  have leaves : recheck g m.shared = ⟨m.shared, .none, .leaves g⟩ := if_neg other
  have silent : Notified (recheck g m.shared).signal m.status m.status := by
    rw [leaves]
    exact .none
  have resumes : BarrierStep m (.resume t g (recheck g m.shared).next) _ :=
    .resume woken rfl silent
  rw [leaves] at resumes
  refine ⟨woken, ⟨_, resumes⟩, ?_⟩
  intro next after step
  cases step with
  | @resume _ _ out status _ runs notified =>
    obtain rfl : out = recheck g m.shared := runs
    rw [leaves]

/-- In every reachable state with fewer than 2^64 generations: the bounds of the counter,
the number of arrivals, the number of threads blocked with the current epoch; a `wait`
returns only when its generation is complete, and who is blocked with another epoch can
return. -/
theorem barrier_reusable {count : U64} (threads : 1 ≤ count.toNat)
    {past : List (BarrierEvent τ)} {m : Monitor τ Barrier U64}
    (path : Path BarrierStep (idle (made count)) past m)
    (few : (arrivals past).length < 2 ^ 64 * count.toNat) :
    m.shared.count = count ∧
      1 ≤ m.shared.current.toNat ∧ m.shared.current.toNat ≤ count.toNat ∧
      (arrivals past).length =
        m.shared.epoch.toNat * count.toNat + (count.toNat - m.shared.current.toNat) ∧
      (waiting m m.shared.epoch).encard =
        ((count.toNat - m.shared.current.toNat : Nat) : ℕ∞) ∧
      (∀ e after g, BarrierStep m e after → returned e = some g →
        (arrivals (past ++ [e])).length < 2 ^ 64 * count.toNat →
          (arrivals (past ++ [e])).count g = count.toNat) ∧
      ∀ t g, (m.status t).blocked = some g → g ≠ m.shared.epoch →
        m.status t = .woken g ∧ (∃ after, BarrierStep m (.resume t g (.leaves g)) after) ∧
          ∀ next after, BarrierStep m (.resume t g next) after → next = .leaves g := by
  have counts := counts_path threads path few
  refine ⟨counts.count_eq, counts.positive, counts.bounded, counts.total, counts.here, ?_,
    fun t g => past_epoch_leaves counts⟩
  intro e after g step returns few'
  exact (counts_step counts step few').complete g (returned_over counts step returns few')

/-- Two threads meet; the fast one arrives again before the slow one has left. -/
theorem barrier_reusable_overlap :
    ∃ (past : List (BarrierEvent Nat)) (m : Monitor Nat Barrier U64),
      Path BarrierStep (idle (made 2)) past m ∧ (m.status 0).blocked = some 0 ∧
        (m.status 1).blocked = some 1 ∧ m.status 0 = .woken 0 ∧
        (waiting m 1).encard = ((1 : Nat) : ℕ∞) := by
  let s₀ : Nat → Status U64 := fun _ => .outside
  let s₁ := update s₀ 0 (.asleep 0)
  let s₂ := update (fun t => (s₁ t).rouse) 1 .outside
  let s₃ := update s₂ 1 (.asleep 1)
  have waits : BarrierStep (idle (made 2)) (.enter 0 () (arrive ⟨2, 2, 0⟩).next)
      ⟨⟨2, 1, 0⟩, s₁⟩ := .enter rfl rfl .none
  have ends : BarrierStep ⟨⟨2, 1, 0⟩, s₁⟩ (.enter 1 () (arrive ⟨2, 1, 0⟩).next)
      ⟨⟨2, 2, 1⟩, s₂⟩ := .enter rfl rfl .all
  have again : BarrierStep ⟨⟨2, 2, 1⟩, s₂⟩ (.enter 1 () (arrive ⟨2, 2, 1⟩).next)
      ⟨⟨2, 1, 1⟩, s₃⟩ := .enter rfl rfl .none
  have path := ((Path.start.snoc waits).snoc ends).snoc again
  obtain ⟨_, _, _, _, here, _, others⟩ := barrier_reusable (by decide) path (by decide)
  exact ⟨_, _, path, rfl, rfl, (others 0 0 rfl (by decide)).1, here⟩

end Barriers
