import Redstone.StartUp

/-!
# A worker that never reaches the barrier

Before it meets `ptrace_run` at the barrier the worker calls `spawn`, `proc_mem` and
`set_options`, each of which may throw. The handler around the whole worker absorbs one
error and lets the thread end; every other exception leaves the thread and ends the
process. The handshake is the one of `StartUp`, whose steps of the worker are now taken
only where the worker calls `b.wait()`.
-/

namespace StrandedLauncher

open MachineWords Barriers StepRuns StartUp

def ESRCH : Nat := 3

/-- An exception that reaches the end of `ptrace_worker`. -/
inductive Exception where
  | systemError (errno : Nat)
  | other
  deriving DecidableEq

/-- The handler warns that the child crashed and returns. -/
def Exception.Absorbed (thrown : Exception) : Prop := thrown = .systemError ESRCH

instance (thrown : Exception) : Decidable thrown.Absorbed :=
  inferInstanceAs (Decidable (thrown = .systemError ESRCH))

/-- The calls in front of the barrier. -/
inductive StartCall where
  | spawn
  | procMem
  | setOptions
  deriving DecidableEq

inductive Stage where
  | calling (call : StartCall)
  | meeting
  | tracing
  | ended
  deriving DecidableEq

def StartCall.next : StartCall → Stage
  | spawn => .calling .procMem
  | procMem => .calling .setOptions
  | setOptions => .meeting

/-- `handshake` is the barrier with where the two threads are in it. -/
structure State where
  handshake : StartUp.State
  stage : Stage
  alive : Bool
  deriving DecidableEq

def State.start : State := ⟨.start, .calling .spawn, true⟩

/-- An exception ends the worker or the process. -/
def State.catch (s : State) (thrown : Exception) : State :=
  if thrown.Absorbed then { s with stage := .ended } else { s with alive := false }

inductive Event where
  | returns (call : StartCall)
  | throws (call : StartCall) (thrown : Exception)
  | meets (e : StartUp.Event)
  | leaves
  | returnsLast
  | throwsLast (thrown : Exception)
  deriving DecidableEq

/-- The steps of the handshake that the worker takes. -/
def OfWorker (e : StartUp.Event) : Prop :=
  e = .arrive .worker ∨ e = .block .worker ∨ e = .wake .worker ∨ e = .relock .worker ∨
    e = .unlock .worker

instance (e : StartUp.Event) : Decidable (OfWorker e) :=
  inferInstanceAs (Decidable (_ ∨ _ ∨ _ ∨ _ ∨ _))

def step (s : State) (e : Event) : Option State :=
  if s.alive = false then none
  else match e with
    | .returns call =>
      if s.stage = .calling call then some { s with stage := call.next } else none
    | .throws call thrown => if s.stage = .calling call then some (s.catch thrown) else none
    | .meets e =>
      if OfWorker e → s.stage = .meeting then
        (StartUp.step s.handshake e).map fun handshake => { s with handshake }
      else none
    | .leaves =>
      if s.stage = .meeting ∧ s.handshake.worker = .returned then some { s with stage := .tracing }
      else none
    | .returnsLast => if s.stage = .tracing then some { s with stage := .ended } else none
    | .throwsLast thrown => if s.stage = .tracing then some (s.catch thrown) else none

def LaunchStep (s : State) (e : Event) (after : State) : Prop := step s e = some after

/-- One of the calls in front of the barrier throws what the handler absorbs. -/
def Vanishes (e : Event) : Prop := ∃ call, e = .throws call (.systemError ESRCH)

/-- `ptrace_run` is inside `b.wait()`. -/
def Blocked : Pc → Prop
  | .arrived _ => True
  | .asleep _ => True
  | .woken _ => True
  | _ => False

/-- The worker has ended, `ptrace_run` waits, and nothing that can happen releases it. -/
structure Stranded (s : State) : Prop where
  alive : s.alive = true
  ended : s.stage = .ended
  blocked : Blocked s.handshake.main
  forever : ∀ rest t, Path LaunchStep s rest t → t.handshake.main ≠ .returned

/-! ## The handshake -/

/-- A thread on its way out after both have met. -/
inductive Out : Pc → Prop where
  | woken : Out (.woken 0)
  | leaving : Out .leaving
  | returned : Out .returned

/-- The states of the handshake, whoever arrives last. -/
inductive Rendezvous : StartUp.State → Prop where
  | start : Rendezvous ⟨⟨2, 2, 0⟩, .before, .before, false⟩
  | mainWaits {pc : Pc} (waiting : Waiting pc) : Rendezvous ⟨⟨2, 1, 0⟩, pc, .before, false⟩
  | workerWaits {pc : Pc} (waiting : Waiting pc) : Rendezvous ⟨⟨2, 1, 0⟩, .before, pc, false⟩
  | met {main worker : Pc} {destroyed : Bool} (mainOut : Out main) (workerOut : Out worker) :
      Rendezvous ⟨⟨2, 2, 1⟩, main, worker, destroyed⟩

theorem rendezvous_step {s after : StartUp.State} {e : StartUp.Event} (here : Rendezvous s)
    (taken : StartStep s e after) : Rendezvous after := by
  -- in each state few events are enabled, and `cases taken` refutes the others
  cases here with
  | start =>
    rcases e with (_ | _) | (_ | _) | (_ | _) | (_ | _) | (_ | _) | _ <;> cases taken
    · exact .mainWaits .arrived
    · exact .workerWaits .arrived
  | mainWaits waiting =>
    cases waiting with
    | arrived =>
      rcases e with (_ | _) | (_ | _) | (_ | _) | (_ | _) | (_ | _) | _ <;> cases taken
      exact .mainWaits .asleep
    | asleep =>
      rcases e with (_ | _) | (_ | _) | (_ | _) | (_ | _) | (_ | _) | _ <;> cases taken
      · exact .met .woken .leaving
      · exact .mainWaits .woken
    | woken =>
      rcases e with (_ | _) | (_ | _) | (_ | _) | (_ | _) | (_ | _) | _ <;> cases taken
      · exact .met .woken .leaving
      · exact .mainWaits .arrived
  | workerWaits waiting =>
    cases waiting with
    | arrived =>
      rcases e with (_ | _) | (_ | _) | (_ | _) | (_ | _) | (_ | _) | _ <;> cases taken
      exact .workerWaits .asleep
    | asleep =>
      rcases e with (_ | _) | (_ | _) | (_ | _) | (_ | _) | (_ | _) | _ <;> cases taken
      · exact .met .leaving .woken
      · exact .workerWaits .woken
    | woken =>
      rcases e with (_ | _) | (_ | _) | (_ | _) | (_ | _) | (_ | _) | _ <;> cases taken
      · exact .met .leaving .woken
      · exact .workerWaits .arrived
  | @met main worker destroyed mainOut workerOut =>
    cases mainOut <;> cases workerOut <;> cases destroyed <;>
      rcases e with (_ | _) | (_ | _) | (_ | _) | (_ | _) | (_ | _) | _ <;> cases taken <;>
      exact .met (by constructor) (by constructor)

/-- The steps of `ptrace_run` at most wake the worker up. -/
theorem worker_kept {s after : StartUp.State} {e : StartUp.Event} (main : ¬OfWorker e)
    (taken : StartStep s e after) :
    after.worker = s.worker ∨ after.worker = s.worker.rouse := by
  have proceeds : ∀ out, (s.proceed .main out).worker = s.worker ∨
      (s.proceed .main out).worker = s.worker.rouse := by
    rintro ⟨shared, signal, next⟩
    cases signal with
    | all => exact Or.inr rfl
    | none => exact Or.inl rfl
    | one => exact Or.inl rfl
  cases taken_of_step taken with
  | @arrive t =>
    cases t with
    | main => exact proceeds _
    | worker => exact absurd (by decide) main
  | @block t =>
    cases t with
    | main => exact Or.inl rfl
    | worker => exact absurd (by decide) main
  | @wake t =>
    cases t with
    | main => exact Or.inl rfl
    | worker => exact absurd (by decide) main
  | @relock t =>
    cases t with
    | main => exact proceeds _
    | worker => exact absurd (by decide) main
  | @unlock t =>
    cases t with
    | main => exact Or.inl rfl
    | worker => exact absurd (by decide) main
  | destroy => exact Or.inl rfl

/-- They leave one alone that has not come yet, -/
theorem before_step {s after : StartUp.State} {e : StartUp.Event} (absent : s.worker = .before)
    (main : ¬OfWorker e) (taken : StartStep s e after) : after.worker = .before := by
  rcases worker_kept main taken with same | roused
  · exact same.trans absent
  · rw [roused, absent]
    rfl

/-- and one that has gone. -/
theorem returned_step {s after : StartUp.State} {e : StartUp.Event} (out : s.worker = .returned)
    (main : ¬OfWorker e) (taken : StartStep s e after) : after.worker = .returned := by
  rcases worker_kept main taken with same | roused
  · exact same.trans out
  · rw [roused, out]
    rfl

/-- Once the worker has returned, `ptrace_run` can. -/
theorem main_released {s : StartUp.State} (here : Rendezvous s) (out : s.worker = .returned) :
    s.main = .returned ∨
      (∃ t, StartStep s (.unlock .main) t ∧ t.main = .returned) ∨
      ∃ t u, StartStep s (.relock .main) t ∧ StartStep t (.unlock .main) u ∧
        u.main = .returned := by
  cases here with
  | start => cases out
  | mainWaits => cases out
  | workerWaits waiting => cases waiting <;> cases out
  | @met main worker destroyed mainOut =>
    cases out
    cases mainOut with
    | woken => exact Or.inr (Or.inr ⟨_, _, rfl, rfl, rfl⟩)
    | leaving => exact Or.inr (Or.inl ⟨_, rfl, rfl⟩)
    | returned => exact Or.inl rfl

/-- Without the worker, `ptrace_run` is in front of the barrier or waits at it. -/
theorem main_alone {s : StartUp.State} (here : Rendezvous s) (absent : s.worker = .before) :
    (s = .start ∨ Blocked s.main) ∧ s.main ≠ .returned := by
  cases here with
  | start => exact ⟨Or.inl rfl, Pc.noConfusion⟩
  | mainWaits waiting =>
    cases waiting with
    | arrived => exact ⟨Or.inr trivial, Pc.noConfusion⟩
    | asleep => exact ⟨Or.inr trivial, Pc.noConfusion⟩
    | woken => exact ⟨Or.inr trivial, Pc.noConfusion⟩
  | workerWaits waiting => cases waiting <;> cases absent
  | met _ workerOut => cases workerOut <;> cases absent

/-! ## Steps -/

/-- What a step does, by its event. -/
inductive Launched (s : State) : Event → State → Prop where
  | returns {call : StartCall} (here : s.stage = .calling call) :
      Launched s (.returns call) { s with stage := call.next }
  | throws {call : StartCall} (here : s.stage = .calling call) (thrown : Exception) :
      Launched s (.throws call thrown) (s.catch thrown)
  | meets {e : StartUp.Event} {handshake : StartUp.State}
      (allowed : OfWorker e → s.stage = .meeting) (taken : StartStep s.handshake e handshake) :
      Launched s (.meets e) { s with handshake }
  | leaves (here : s.stage = .meeting) (out : s.handshake.worker = .returned) :
      Launched s .leaves { s with stage := .tracing }
  | returnsLast (here : s.stage = .tracing) : Launched s .returnsLast { s with stage := .ended }
  | throwsLast (here : s.stage = .tracing) (thrown : Exception) :
      Launched s (.throwsLast thrown) (s.catch thrown)

theorem launched {s after : State} {e : Event} (taken : LaunchStep s e after) :
    s.alive = true ∧ Launched s e after := by
  rw [LaunchStep, step.eq_def] at taken
  by_cases dead : s.alive = false
  · rw [if_pos dead] at taken
    cases taken
  rw [if_neg dead] at taken
  refine ⟨eq_true_of_ne_false dead, ?_⟩
  cases e with
  | returns call =>
    by_cases here : s.stage = .calling call
    · simp only [if_pos here, Option.some.injEq] at taken
      exact taken ▸ .returns here
    · simp only [if_neg here] at taken
      cases taken
  | throws call thrown =>
    by_cases here : s.stage = .calling call
    · simp only [if_pos here, Option.some.injEq] at taken
      exact taken ▸ .throws here thrown
    · simp only [if_neg here] at taken
      cases taken
  | meets e =>
    by_cases allowed : OfWorker e → s.stage = .meeting
    · simp only [if_pos allowed] at taken
      obtain ⟨handshake, stepped, rfl⟩ := Option.map_eq_some_iff.mp taken
      exact .meets allowed stepped
    · simp only [if_neg allowed] at taken
      cases taken
  | leaves =>
    by_cases here : s.stage = .meeting ∧ s.handshake.worker = .returned
    · simp only [if_pos here, Option.some.injEq] at taken
      exact taken ▸ .leaves here.1 here.2
    · simp only [if_neg here] at taken
      cases taken
  | returnsLast =>
    by_cases here : s.stage = .tracing
    · simp only [if_pos here, Option.some.injEq] at taken
      exact taken ▸ .returnsLast here
    · simp only [if_neg here] at taken
      cases taken
  | throwsLast thrown =>
    by_cases here : s.stage = .tracing
    · simp only [if_pos here, Option.some.injEq] at taken
      exact taken ▸ .throwsLast here thrown
    · simp only [if_neg here] at taken
      cases taken

theorem meets_step {s : State} (alive : s.alive = true) {e : StartUp.Event} (main : ¬OfWorker e)
    {handshake : StartUp.State} (taken : StartStep s.handshake e handshake) :
    LaunchStep s (.meets e) { s with handshake } := by
  have living : ¬s.alive = false := by rw [alive]; exact Bool.noConfusion
  have allowed : OfWorker e → s.stage = .meeting := fun worker => absurd worker main
  have stepped : StartUp.step s.handshake e = some handshake := taken
  simp only [LaunchStep, step, if_neg living, if_pos allowed, stepped, Option.map_some]

/-! ## A worker that is gone -/

/-- The worker has ended in front of the barrier. -/
structure Lost (s : State) : Prop where
  alive : s.alive = true
  ended : s.stage = .ended
  absent : s.handshake.worker = .before
  rendezvous : Rendezvous s.handshake

theorem lost_step {s after : State} {e : Event} (lost : Lost s) (taken : LaunchStep s e after) :
    Lost after := by
  have launched := (launched taken).2
  have elsewhere : ∀ {stage : Stage}, s.stage = stage → stage ≠ .ended → False :=
    fun here other => other (here.symm.trans lost.ended)
  cases launched with
  | returns here => exact (elsewhere here Stage.noConfusion).elim
  | throws here => exact (elsewhere here Stage.noConfusion).elim
  | meets allowed stepped =>
    have main := fun worker => elsewhere (allowed worker) Stage.noConfusion
    exact ⟨lost.alive, lost.ended, before_step lost.absent main stepped,
      rendezvous_step lost.rendezvous stepped⟩
  | leaves here => exact (elsewhere here Stage.noConfusion).elim
  | returnsLast here => exact (elsewhere here Stage.noConfusion).elim
  | throwsLast here => exact (elsewhere here Stage.noConfusion).elim

/-- Whatever happens, `ptrace_run` does not get out. -/
theorem lost_run {s t : State} {rest : List Event} (lost : Lost s)
    (path : Path LaunchStep s rest t) : t.handshake.main ≠ .returned := by
  have kept : Lost t := history_invariant (fun _ t => Lost t) lost
    (fun _ _ _ _ lost taken => lost_step lost taken) path
  exact (main_alone kept.rendezvous kept.absent).2

/-- If it is not there yet it arrives, and then it is stranded. -/
theorem lost_stranded {s : State} (lost : Lost s) :
    ∃ rest t, Path LaunchStep s rest t ∧ Stranded t := by
  have stranded : ∀ {t : State}, Lost t → Blocked t.handshake.main → Stranded t :=
    fun lost blocked => ⟨lost.alive, lost.ended, blocked, fun _ _ path => lost_run lost path⟩
  rcases (main_alone lost.rendezvous lost.absent).1 with start | blocked
  · have arrives : StartStep s.handshake (.arrive .main)
        ⟨⟨2, 1, 0⟩, .arrived 0, .before, false⟩ := by
      rw [start]
      rfl
    have taken := meets_step lost.alive (by decide) arrives
    exact ⟨_, _, Path.start.snoc taken, stranded (lost_step lost taken) trivial⟩
  · exact ⟨[], s, .start, stranded lost blocked⟩

/-! ## Runs -/

/-- Where the worker is in the handshake, by its stage, if it has not vanished. -/
def Placed : Stage → Pc → Prop
  | .calling _, pc => pc = .before
  | .meeting, _ => True
  | .tracing, pc => pc = .returned
  | .ended, pc => pc = .returned

/-- What a run without a vanished worker keeps, and what one with it does. -/
structure Kept (past : List Event) (s : State) : Prop where
  rendezvous : Rendezvous s.handshake
  placed : (∀ e ∈ past, ¬Vanishes e) → s.alive = true → Placed s.stage s.handshake.worker
  lost : (∃ e ∈ past, Vanishes e) → Lost s

theorem launched_rendezvous {s after : State} {e : Event} (here : Rendezvous s.handshake)
    (launched : Launched s e after) : Rendezvous after.handshake := by
  have caught : ∀ thrown, (s.catch thrown).handshake = s.handshake := by
    intro thrown
    rw [State.catch]
    split <;> rfl
  cases launched with
  | returns => exact here
  | throws _ thrown =>
    rw [caught]
    exact here
  | meets _ stepped => exact rendezvous_step here stepped
  | leaves => exact here
  | returnsLast => exact here
  | throwsLast _ thrown =>
    rw [caught]
    exact here

/-- After a step that is no vanishing, a worker that has ended was through the barrier. -/
theorem launched_placed {s after : State} {e : Event} (placed : Placed s.stage s.handshake.worker)
    (stays : ¬Vanishes e) (launched : Launched s e after) (alive : after.alive = true) :
    Placed after.stage after.handshake.worker := by
  cases launched with
  | @returns call here =>
    rw [here] at placed
    cases call with
    | spawn => exact placed
    | procMem => exact placed
    | setOptions => trivial
  | throws here thrown =>
    have absorbed : ¬thrown.Absorbed := fun same => stays ⟨_, congrArg _ same⟩
    rw [State.catch, if_neg absorbed] at alive
    cases alive
  | @meets e handshake allowed stepped =>
    change Placed s.stage handshake.worker
    cases stage : s.stage with
    | meeting => trivial
    | calling call =>
      rw [stage] at placed allowed
      exact before_step placed (fun worker => Stage.noConfusion (allowed worker)) stepped
    | tracing =>
      rw [stage] at placed allowed
      exact returned_step placed (fun worker => Stage.noConfusion (allowed worker)) stepped
    | ended =>
      rw [stage] at placed allowed
      exact returned_step placed (fun worker => Stage.noConfusion (allowed worker)) stepped
  | leaves _ out => exact out
  | returnsLast here =>
    rw [here] at placed
    exact placed
  | throwsLast here thrown =>
    rw [here] at placed
    by_cases absorbed : thrown.Absorbed
    · rw [State.catch, if_pos absorbed]
      exact placed
    · rw [State.catch, if_neg absorbed] at alive
      cases alive

/-- A call that vanishes does so in front of the barrier. -/
theorem launched_lost {s after : State} {e : Event} (placed : Placed s.stage s.handshake.worker)
    (alive : s.alive = true) (rendezvous : Rendezvous s.handshake) (vanishes : Vanishes e)
    (launched : Launched s e after) : Lost after := by
  obtain ⟨call, rfl⟩ := vanishes
  cases launched with
  | throws here =>
    have absorbed : (Exception.systemError ESRCH).Absorbed := rfl
    rw [here] at placed
    rw [State.catch, if_pos absorbed]
    exact ⟨alive, rfl, placed, rendezvous⟩

theorem kept_run {past : List Event} {s : State} (path : Path LaunchStep .start past s) :
    Kept past s := by
  have start : Kept [] .start := by
    refine ⟨.start, fun _ _ => rfl, ?_⟩
    rintro ⟨e, member, _⟩
    cases member
  refine history_invariant Kept start ?_ path
  intro past s e after kept taken
  obtain ⟨alive, stepped⟩ := launched taken
  refine ⟨launched_rendezvous kept.rendezvous stepped, fun quiet living => ?_, ?_⟩
  · rw [List.forall_mem_append, List.forall_mem_singleton] at quiet
    exact launched_placed (kept.placed quiet.1 alive) quiet.2 stepped living
  · rintro ⟨e', member, vanishes⟩
    rcases List.mem_append.mp member with earlier | last
    · exact lost_step (kept.lost ⟨e', earlier, vanishes⟩) taken
    · obtain rfl := List.mem_singleton.mp last
      by_cases before : ∃ e ∈ past, Vanishes e
      · exact lost_step (kept.lost before) taken
      · have quiet : ∀ e ∈ past, ¬Vanishes e := fun e member gone => before ⟨e, member, gone⟩
        exact launched_lost (kept.placed quiet alive) alive kept.rendezvous vanishes stepped

/-- A worker that ends behind the barrier has left `ptrace_run` free to return. -/
theorem placed_not_stranded {s : State} (placed : Placed s.stage s.handshake.worker)
    (rendezvous : Rendezvous s.handshake) : ¬Stranded s := by
  intro stranded
  rw [stranded.ended] at placed
  have alive := stranded.alive
  rcases main_released rendezvous placed with
    out | ⟨t, unlocks, out⟩ | ⟨t, u, relocks, unlocks, out⟩
  · exact stranded.forever _ _ .start out
  · exact stranded.forever _ _ (Path.start.snoc (meets_step alive (by decide) unlocks)) out
  · have first := meets_step alive (by decide) relocks
    have second := @meets_step { s with handshake := t } alive _ (by decide) _ unlocks
    exact stranded.forever _ _ ((Path.start.snoc first).snoc second) out

/-- In every run in which no call in front of the barrier throws the absorbed error,
`ptrace_run` is never stranded. After such a throw it never returns, and it can only go on
to be stranded. -/
theorem stranded_iff_vanished {past : List Event} {s : State}
    (path : Path LaunchStep .start past s) :
    ((∀ e ∈ past, ¬Vanishes e) → ¬Stranded s) ∧
      ((∃ e ∈ past, Vanishes e) →
        (∀ rest t, Path LaunchStep s rest t → t.handshake.main ≠ .returned) ∧
          ∃ rest t, Path LaunchStep s rest t ∧ Stranded t) := by
  have kept := kept_run path
  constructor
  · intro quiet stranded
    exact placed_not_stranded (kept.placed quiet stranded.alive) kept.rendezvous stranded
  · intro vanished
    have lost := kept.lost vanished
    exact ⟨fun _ _ path => lost_run lost path, lost_stranded lost⟩

/-- The worker comes through and ends while `ptrace_run` has not yet woken up. -/
theorem stranded_iff_vanished_quiet :
    ∃ past s, Path LaunchStep .start past s ∧ s.stage = .ended ∧ Blocked s.handshake.main ∧
      ¬Stranded s := by
  have spawned : LaunchStep .start (.returns .spawn) ⟨.start, .calling .procMem, true⟩ := rfl
  have opened : LaunchStep ⟨.start, .calling .procMem, true⟩ (.returns .procMem)
      ⟨.start, .calling .setOptions, true⟩ := rfl
  have set : LaunchStep ⟨.start, .calling .setOptions, true⟩ (.returns .setOptions)
      ⟨.start, .meeting, true⟩ := rfl
  have arrives : LaunchStep ⟨.start, .meeting, true⟩ (.meets (.arrive .main))
      ⟨⟨⟨2, 1, 0⟩, .arrived 0, .before, false⟩, .meeting, true⟩ := rfl
  have blocks : LaunchStep ⟨⟨⟨2, 1, 0⟩, .arrived 0, .before, false⟩, .meeting, true⟩
      (.meets (.block .main)) ⟨⟨⟨2, 1, 0⟩, .asleep 0, .before, false⟩, .meeting, true⟩ := rfl
  have meets : LaunchStep ⟨⟨⟨2, 1, 0⟩, .asleep 0, .before, false⟩, .meeting, true⟩
      (.meets (.arrive .worker)) ⟨⟨⟨2, 2, 1⟩, .woken 0, .leaving, false⟩, .meeting, true⟩ := rfl
  have unlocks : LaunchStep ⟨⟨⟨2, 2, 1⟩, .woken 0, .leaving, false⟩, .meeting, true⟩
      (.meets (.unlock .worker)) ⟨⟨⟨2, 2, 1⟩, .woken 0, .returned, false⟩, .meeting, true⟩ := rfl
  have leaves : LaunchStep ⟨⟨⟨2, 2, 1⟩, .woken 0, .returned, false⟩, .meeting, true⟩ .leaves
      ⟨⟨⟨2, 2, 1⟩, .woken 0, .returned, false⟩, .tracing, true⟩ := rfl
  have ends : LaunchStep ⟨⟨⟨2, 2, 1⟩, .woken 0, .returned, false⟩, .tracing, true⟩ .returnsLast
      ⟨⟨⟨2, 2, 1⟩, .woken 0, .returned, false⟩, .ended, true⟩ := rfl
  have path := ((((((((Path.start.snoc spawned).snoc opened).snoc set).snoc arrives).snoc
    blocks).snoc meets).snoc unlocks).snoc leaves).snoc ends
  refine ⟨_, _, path, rfl, trivial, (stranded_iff_vanished path).1 ?_⟩
  rintro e member ⟨call, rfl⟩
  simp at member

/-- The child is killed before `set_options`: the thread ends with a warning, and
`ptrace_run` waits for it. -/
theorem killed_child_strands :
    ∃ s, Path LaunchStep .start [.returns .spawn, .returns .procMem,
      .throws .setOptions (.systemError ESRCH), .meets (.arrive .main)] s ∧ Stranded s := by
  have spawned : LaunchStep .start (.returns .spawn) ⟨.start, .calling .procMem, true⟩ := rfl
  have opened : LaunchStep ⟨.start, .calling .procMem, true⟩ (.returns .procMem)
      ⟨.start, .calling .setOptions, true⟩ := rfl
  have vanishes : LaunchStep ⟨.start, .calling .setOptions, true⟩
      (.throws .setOptions (.systemError ESRCH)) ⟨.start, .ended, true⟩ := rfl
  have arrives : LaunchStep ⟨.start, .ended, true⟩ (.meets (.arrive .main))
      ⟨⟨⟨2, 1, 0⟩, .arrived 0, .before, false⟩, .ended, true⟩ := rfl
  have lost : Lost ⟨⟨⟨2, 1, 0⟩, .arrived 0, .before, false⟩, .ended, true⟩ :=
    ⟨rfl, rfl, rfl, .mainWaits .arrived⟩
  exact ⟨_, (((Path.start.snoc spawned).snoc opened).snoc vanishes).snoc arrives,
    rfl, rfl, trivial, fun _ _ path => lost_run lost path⟩

end StrandedLauncher
