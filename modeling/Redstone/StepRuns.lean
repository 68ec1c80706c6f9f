import Mathlib.Data.List.Basic

/-!
# Runs of step machines

A deterministic machine is a step function from a state and an input to an
output and a next state; a nondeterministic one is a labelled step relation.
Invariants, side conditions along a run, lockstep simulation and invariants that
also read the history are each proved once here and instantiated elsewhere.
-/

namespace StepRuns

universe u v w

section Deterministic
variable {State : Type u} {Other : Type u} {Input : Type v} {Output : Type w}

def run (step : State → Input → Output × State) : State → List Input → State
  | s, [] => s
  | s, i :: rest => run step (step s i).2 rest

def outputs (step : State → Input → Output × State) : State → List Input → List Output
  | _, [] => []
  | s, i :: rest => (step s i).1 :: outputs step (step s i).2 rest

/-- `P` holds of every state of the run together with the input consumed there. -/
def Along (step : State → Input → Output × State) (P : State → Input → Prop) :
    State → List Input → Prop
  | _, [] => True
  | s, i :: rest => P s i ∧ Along step P (step s i).2 rest

instance decidableAlong (step : State → Input → Output × State) (P : State → Input → Prop)
    [∀ s i, Decidable (P s i)] : (s : State) → (is : List Input) → Decidable (Along step P s is)
  | _, [] => isTrue trivial
  | s, i :: rest => @instDecidableAnd _ _ _ (decidableAlong step P (step s i).2 rest)

variable {step : State → Input → Output × State} {other : Other → Input → Output × Other}
variable {P Q : State → Input → Prop}

@[simp] theorem run_nil (s : State) : run step s [] = s := rfl

@[simp] theorem run_cons (s : State) (i : Input) (rest : List Input) :
    run step s (i :: rest) = run step (step s i).2 rest := rfl

@[simp] theorem outputs_nil (s : State) : outputs step s [] = [] := rfl

@[simp] theorem outputs_cons (s : State) (i : Input) (rest : List Input) :
    outputs step s (i :: rest) = (step s i).1 :: outputs step (step s i).2 rest := rfl

@[simp] theorem along_nil (s : State) : Along step P s [] := trivial

@[simp] theorem along_cons (s : State) (i : Input) (rest : List Input) :
    Along step P s (i :: rest) ↔ P s i ∧ Along step P (step s i).2 rest := Iff.rfl

theorem run_append (s : State) (first second : List Input) :
    run step s (first ++ second) = run step (run step s first) second := by
  induction first generalizing s with
  | nil => rfl
  | cons i rest ih => exact ih (step s i).2

theorem outputs_append (s : State) (first second : List Input) :
    outputs step s (first ++ second) =
      outputs step s first ++ outputs step (run step s first) second := by
  induction first generalizing s with
  | nil => rfl
  | cons i rest ih => exact congrArg (List.cons _) (ih (step s i).2)

theorem along_append (s : State) (first second : List Input) :
    Along step P s (first ++ second) ↔
      Along step P s first ∧ Along step P (run step s first) second := by
  induction first generalizing s with
  | nil => simp
  | cons i rest ih => simp only [List.cons_append, along_cons, run_cons, ih, and_assoc]

theorem along_and {s : State} {is : List Input} :
    Along step (fun s i => P s i ∧ Q s i) s is ↔ Along step P s is ∧ Along step Q s is := by
  induction is generalizing s with
  | nil => simp
  | cons i rest ih =>
    rw [along_cons, along_cons, along_cons, ih]
    exact and_and_and_comm

/-- A property of all steps holds along every run. -/
theorem along_of_forall (all : ∀ s i, P s i) (s : State) (is : List Input) :
    Along step P s is := by
  induction is generalizing s with
  | nil => trivial
  | cons i rest ih => exact ⟨all s i, ih (step s i).2⟩

/-- A condition on the inputs alone holds along a run if it holds of them all. -/
theorem along_inputs (condition : Input → Prop) (s : State) (is : List Input) :
    Along step (fun _ i => condition i) s is ↔ ∀ i ∈ is, condition i := by
  induction is generalizing s with
  | nil => exact iff_of_true trivial fun i member => absurd member List.not_mem_nil
  | cons i rest ih => rw [along_cons, List.forall_mem_cons, ih]

/-- The invariant rule: what each admitted step keeps, every admitted run keeps. -/
theorem run_invariant (Inv : State → Prop)
    (keeps : ∀ s i, Inv s → P s i → Inv (step s i).2) {s : State} {is : List Input}
    (start : Inv s) (admitted : Along step P s is) : Inv (run step s is) := by
  induction is generalizing s with
  | nil => exact start
  | cons i rest ih => exact ih (keeps s i start admitted.1) admitted.2

/-- A property of single steps that the invariant implies holds along the whole run. -/
theorem along_of_invariant (Inv : State → Prop)
    (keeps : ∀ s i, Inv s → P s i → Inv (step s i).2)
    (good : ∀ s i, Inv s → P s i → Q s i) {s : State} {is : List Input}
    (start : Inv s) (admitted : Along step P s is) : Along step Q s is := by
  induction is generalizing s with
  | nil => trivial
  | cons i rest ih =>
    exact ⟨good s i start admitted.1, ih (keeps s i start admitted.1) admitted.2⟩

/-- Two properties of single steps that agree while the first has held agree on runs. -/
theorem along_congr (Inv : State → Prop) (agree : ∀ s i, Inv s → (P s i ↔ Q s i))
    (keeps : ∀ s i, Inv s → P s i → Inv (step s i).2) {s : State} {is : List Input}
    (start : Inv s) : Along step P s is ↔ Along step Q s is := by
  induction is generalizing s with
  | nil => exact Iff.rfl
  | cons i rest ih =>
    rw [along_cons, along_cons, agree s i start]
    refine and_congr_right fun now => ih (keeps s i start ?_)
    exact (agree s i start).mpr now

/-- Lockstep simulation: related states produce the same outputs and stay related. -/
theorem simulation (R : State → Other → Prop)
    (lockstep : ∀ s t i, R s t → P s i →
      (step s i).1 = (other t i).1 ∧ R (step s i).2 (other t i).2)
    {s : State} {t : Other} {is : List Input} (start : R s t)
    (admitted : Along step P s is) :
    outputs step s is = outputs other t is ∧ R (run step s is) (run other t is) := by
  induction is generalizing s t with
  | nil => exact ⟨rfl, start⟩
  | cons i rest ih =>
    obtain ⟨same, related⟩ := lockstep s t i start admitted.1
    obtain ⟨tail, final⟩ := ih related admitted.2
    exact ⟨by simp only [outputs_cons, same, tail], final⟩

end Deterministic

section Labelled
variable {State : Type u} {Event : Type v}

/-- A path of a labelled step relation, with its events in order. -/
inductive Path (Step : State → Event → State → Prop) (s : State) :
    List Event → State → Prop where
  | start : Path Step s [] s
  | snoc {past : List Event} {t u : State} {e : Event} (before : Path Step s past t)
      (last : Step t e u) : Path Step s (past ++ [e]) u

variable {Step : State → Event → State → Prop}

/-- The invariant rule for properties of a state and of the events that led to it. -/
theorem history_invariant {s : State} (Inv : List Event → State → Prop)
    (start : Inv [] s)
    (keeps : ∀ past t e u, Inv past t → Step t e u → Inv (past ++ [e]) u)
    {past : List Event} {t : State} (path : Path Step s past t) : Inv past t := by
  induction path with
  | start => exact start
  | snoc _ last ih => exact keeps _ _ _ _ ih last

theorem path_mono {Other : State → Event → State → Prop}
    (steps : ∀ {t e u}, Step t e u → Other t e u) {s t : State} {past : List Event}
    (path : Path Step s past t) : Path Other s past t := by
  induction path with
  | start => exact .start
  | snoc _ last ih => exact ih.snoc (steps last)

theorem path_trans {s t u : State} {first second : List Event} (front : Path Step s first t)
    (back : Path Step t second u) : Path Step s (first ++ second) u := by
  induction back with
  | start => rwa [List.append_nil]
  | snoc _ last ih =>
    rw [← List.append_assoc]
    exact ih.snoc last

/-- A step in front of a path. -/
theorem path_cons {s t u : State} {e : Event} {rest : List Event} (first : Step s e t)
    (path : Path Step t rest u) : Path Step s (e :: rest) u :=
  path_trans (Path.start.snoc first) path

/-- What a history records, one event later. -/
theorem filterMap_snoc {Record : Type w} (record : Event → Option Record)
    (past : List Event) (e : Event) :
    (past ++ [e]).filterMap record = past.filterMap record ++ (record e).toList := by
  rw [List.filterMap_append]
  cases label : record e <;> simp [label]

/-- A path is cut where its events are. -/
theorem path_append {s u : State} {past first second : List Event} (path : Path Step s past u)
    (cut : past = first ++ second) : ∃ t, Path Step s first t ∧ Path Step t second u := by
  induction path generalizing second with
  | start =>
    obtain ⟨rfl, rfl⟩ := List.append_eq_nil_iff.mp cut.symm
    exact ⟨s, .start, .start⟩
  | @snoc past t u e before last ih =>
    rcases List.eq_nil_or_concat second with rfl | ⟨rest, e', rfl⟩
    · rw [← cut.trans (List.append_nil first)]
      exact ⟨u, before.snoc last, .start⟩
    · rw [List.concat_eq_append, ← List.append_assoc] at cut
      obtain ⟨same, latest⟩ := List.append_inj' cut rfl
      obtain rfl := List.singleton_inj.mp latest
      obtain ⟨middle, front, back⟩ := ih same
      rw [List.concat_eq_append]
      exact ⟨middle, front, back.snoc last⟩

/-- Every beginning of a path is a path. -/
theorem path_take {s t : State} {past : List Event} (path : Path Step s past t) (n : Nat) :
    ∃ u, Path Step s (past.take n) u := by
  obtain ⟨u, front, _⟩ := path_append path (List.take_append_drop n past).symm
  exact ⟨u, front⟩

/-- One event inside a path is one step between two states on it. -/
theorem path_event {s u : State} {past before after : List Event} {e : Event}
    (path : Path Step s past u) (cut : past = before ++ e :: after) :
    ∃ t t', Path Step s before t ∧ Step t e t' ∧ Path Step t' after u := by
  have cut' : past = (before ++ [e]) ++ after := by
    rw [cut, List.append_assoc, List.singleton_append]
  obtain ⟨t', front, back⟩ := path_append path cut'
  generalize label : before ++ [e] = events at front
  cases front with
  | start => simp at label
  | snoc earlier last =>
    obtain ⟨rfl, latest⟩ := List.append_inj' label rfl
    obtain rfl := List.singleton_inj.mp latest
    exact ⟨_, t', earlier, last, back⟩

/-- What holds at the end and not at the start was brought about by some step. -/
theorem path_origin {F : State → Prop} {Makes : State → Event → State → Prop} {s t : State}
    {past : List Event} (path : Path Step s past t) (absent : ¬F s) (here : F t)
    (made : ∀ {past t e u}, Path Step s past t → Step t e u → F u → F t ∨ Makes t e u) :
    ∃ before e after u u', past = before ++ e :: after ∧ Path Step s before u ∧
      Step u e u' ∧ Path Step u' after t ∧ Makes u e u' := by
  induction path with
  | start => exact absurd here absent
  | @snoc past t u e before last ih =>
    rcases made before last here with old | now
    · obtain ⟨first, e', rest, v, v', cut, front, step, back, origin⟩ := ih old
      exact ⟨first, e', rest ++ [e], v, v', by simp [cut], front, step, back.snoc last, origin⟩
    · exact ⟨past, e, [], t, u, rfl, before, last, .start, now⟩

/-- Forward simulation with hidden steps: each step is matched by some steps of the other
relation of which the same is seen, and so is each path. -/
theorem weak_simulation {Other : Type u} {Event' : Type v} {Seen : Type w}
    {OtherStep : Other → Event' → Other → Prop} (R : State → Other → Prop)
    (seen : Event → Option Seen) (seen' : Event' → Option Seen)
    (matched : ∀ s e s' t, R s t → Step s e s' →
      ∃ events t', Path OtherStep t events t' ∧ events.filterMap seen' = (seen e).toList ∧ R s' t')
    {s s' : State} {t : Other} {past : List Event} (related : R s t)
    (path : Path Step s past s') :
    ∃ events t', Path OtherStep t events t' ∧
      events.filterMap seen' = past.filterMap seen ∧ R s' t' := by
  induction path with
  | start => exact ⟨[], t, .start, rfl, related⟩
  | snoc _ last ih =>
    obtain ⟨events, u, front, same, middle⟩ := ih
    obtain ⟨more, u', back, same', final⟩ := matched _ _ _ u middle last
    refine ⟨events ++ more, u', path_trans front back, ?_, final⟩
    rw [List.filterMap_append, same, same', filterMap_snoc]

/-- Each state has at most one step. -/
def Deterministic (Step : State → Event → State → Prop) : Prop :=
  ∀ ⦃s e t e' t'⦄, Step s e t → Step s e' t' → e = e' ∧ t = t'

theorem path_unique (deterministic : Deterministic Step) {s t t' : State}
    {past past' : List Event} (first : Path Step s past t) (second : Path Step s past' t')
    (length : past.length = past'.length) : past = past' ∧ t = t' := by
  induction first generalizing past' t' with
  | start =>
    cases second with
    | start => exact ⟨rfl, rfl⟩
    | snoc before last => simp at length
  | snoc before last ih =>
    cases second with
    | start => simp at length
    | snoc before' last' =>
      obtain ⟨rfl, rfl⟩ := ih before' (by simpa using length)
      obtain ⟨rfl, rfl⟩ := deterministic last last'
      exact ⟨rfl, rfl⟩

/-- Two paths of a deterministic relation agree on every event both have. -/
theorem events_agree (deterministic : Deterministic Step) {s t t' : State}
    {past past' : List Event} (first : Path Step s past t) (second : Path Step s past' t')
    {i : Nat} {e e' : Event} (here : past[i]? = some e) (there : past'[i]? = some e') :
    e = e' := by
  obtain ⟨u, cut⟩ := path_take first (i + 1)
  obtain ⟨u', cut'⟩ := path_take second (i + 1)
  obtain ⟨inside, _⟩ := List.getElem?_eq_some_iff.mp here
  obtain ⟨inside', _⟩ := List.getElem?_eq_some_iff.mp there
  have length : (past.take (i + 1)).length = (past'.take (i + 1)).length := by
    rw [List.length_take, List.length_take]
    omega
  have same := congrArg (fun events => events[i]?) (path_unique deterministic cut cut' length).1
  simp only [List.getElem?_take, Nat.lt_succ_self, if_true, here, there] at same
  exact Option.some.inj same

end Labelled

/-! ## Loops cut off by a fuel -/

section Fuel
variable {α : Type u} {β : Type v}

/-- With enough fuel the run ends in a result, and with less it is cut off. -/
def Ends (run : Nat → Option α) (result : α) : Prop :=
  ∃ n, ∀ fuel, run fuel = if n ≤ fuel then some result else none

theorem ends_unique {run : Nat → Option α} {a b : α} {fuel : Nat} (ends : Ends run a)
    (ended : run fuel = some b) : b = a := by
  obtain ⟨n, all⟩ := ends
  rw [all] at ended
  split at ended
  · exact (Option.some.inj ended).symm
  · cases ended

theorem ends_some {run : Nat → Option α} {a : α} (ends : Ends run a) :
    ∃ fuel, run fuel = some a := by
  obtain ⟨n, all⟩ := ends
  exact ⟨n, by rw [all, if_pos (Nat.le_refl n)]⟩

theorem ends_always (a : α) : Ends (fun _ => some a) a :=
  ⟨0, fun fuel => by rw [if_pos (Nat.zero_le fuel)]⟩

/-- A round of the loop takes one unit. -/
theorem ends_round {run next : Nat → Option α} {a : α} (empty : run 0 = none)
    (round : ∀ fuel, run (fuel + 1) = next fuel) (ends : Ends next a) : Ends run a := by
  obtain ⟨n, all⟩ := ends
  refine ⟨n + 1, ?_⟩
  intro fuel
  cases fuel with
  | zero => rw [empty, if_neg (Nat.not_succ_le_zero n)]
  | succ fuel => simp only [round, all, Nat.add_le_add_iff_right]

/-- Two loops in sequence. -/
theorem ends_bind {run : Nat → Option α} {next : α → Nat → Option β} {a : α} {b : β}
    (first : Ends run a) (second : Ends (next a) b) :
    Ends (fun fuel => (run fuel).bind fun a => next a fuel) b := by
  obtain ⟨n, all⟩ := first
  obtain ⟨k, all'⟩ := second
  refine ⟨max n k, ?_⟩
  intro fuel
  simp only [all, Nat.max_le]
  by_cases enough : n ≤ fuel
  · simp only [enough, if_true, Option.bind_some, all', true_and]
  · simp only [enough, if_false, Option.bind_none, false_and]

end Fuel

end StepRuns
