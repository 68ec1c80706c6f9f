import Redstone.StreamBytes

/-!
# Failed receives on a stream socket

`recv` pops its bytes before it calls the callback, and the error path does not put them
back. A section of a recv keeps what was sent exactly if it takes nothing or succeeds.
-/

namespace FailedReceives

open MachineWords Monitors StepRuns StreamBytes

variable {τ : Type}

/-- The bytes of the successful recvs: those that return no negative value. -/
def received (past : List (StreamEvent τ)) : List Byte :=
  (past.filterMap completed).flatMap fun recv =>
    if recv.2.value.toInt < 0 then [] else recv.2.handed

/-- The bytes received and then the buffer are the blocks sent so far. -/
def Conserved (past : List (StreamEvent τ)) (m : Monitor τ (List Byte) RecvCall) : Prop :=
  received past ++ m.shared = (blocks past).flatten

/-- A recv that returns a negative value leaves the buffer unchanged. -/
def Keeps (m : Monitor τ (List Byte) RecvCall) (e : StreamEvent τ)
    (after : Monitor τ (List Byte) RecvCall) : Prop :=
  ∀ call r, completed e = some (call, r) → r.value.toInt < 0 → after.shared = m.shared

/-- The recv that runs at an event. -/
def recvOf : StreamEvent τ → Option RecvCall
  | .enter _ (.recv call) _ => some call
  | .resume _ call _ => some call
  | _ => none

/-- A recv that runs finds nothing to take, or its callback succeeds and the number of
bytes fits in the result. -/
def Harmless (m : Monitor τ (List Byte) RecvCall) (e : StreamEvent τ) : Prop :=
  ∀ call, recvOf e = some call → min call.bytes.toNat m.shared.length = 0 ∨
    (0 ≤ call.res.toInt ∧ min call.bytes.toNat m.shared.length < 2 ^ 63)

/-! ## What one section does -/

theorem received_snoc (past : List (StreamEvent τ)) (e : StreamEvent τ) :
    received (past ++ [e]) = received past ++ (completed e).toList.flatMap fun recv =>
      if recv.2.value.toInt < 0 then [] else recv.2.handed := by
  rw [received, filterMap_snoc, List.flatMap_append, received]

/-- How an event changes the buffer: a send adds its block, a completed recv takes the
bytes that it hands to its callback, and nothing else happens to it. -/
inductive Change (m : Monitor τ (List Byte) RecvCall) (e : StreamEvent τ) :
    List Byte → Prop where
  | quiet (unsent : sentBlock e = none) (unfinished : completed e = none)
      (takes : ∀ call, recvOf e = some call → m.shared = []) : Change m e m.shared
  | sent (buf : List Byte) (block : sentBlock e = some buf) (unfinished : completed e = none)
      (other : recvOf e = none) : Change m e (m.shared ++ buf)
  | taken (call : RecvCall) (r : Returned) (rest : List Byte) (unsent : sentBlock e = none)
      (runs : recvOf e = some call) (done : completed e = some (call, r))
      (whole : r.handed ++ rest = m.shared)
      (length : r.handed.length = min call.bytes.toNat m.shared.length)
      (fails : r.value.toInt < 0 ↔ ¬(0 ≤ call.res.toInt ∧
        min call.bytes.toNat m.shared.length < 2 ^ 63)) : Change m e rest

/-- The sign of what a recv returns. -/
theorem value_negative (call : RecvCall) (n : Nat) (small : n ≤ call.bytes.toNat) :
    (if call.res.toInt < 0 then call.res.signExtend 64 else BitVec.ofNat 64 n).toInt < 0 ↔
      ¬(0 ≤ call.res.toInt ∧ n < 2 ^ 63) := by
  have fits : n < 2 ^ 64 := Nat.lt_of_le_of_lt small call.bytes.isLt
  by_cases failed : call.res.toInt < 0
  · rw [if_pos failed, BitVec.toInt_signExtend_of_le (by decide)]
    omega
  · rw [if_neg failed, BitVec.toInt_eq_toNat_cond, BitVec.toNat_ofNat, Nat.mod_eq_of_lt fits]
    omega

theorem change_recv {m : Monitor τ (List Byte) RecvCall} {call : RecvCall} {e : StreamEvent τ}
    (unsent : sentBlock e = none) (runs : recvOf e = some call)
    (labelled : completed e = match (recv call m.shared).next with
      | .leaves r => some (call, r)
      | .waits _ => none) : Change m e (recv call m.shared).shared := by
  by_cases empty : m.shared = []
  · have waits : recv call m.shared = ⟨m.shared, .none, .waits call⟩ := if_pos empty
    rw [waits] at labelled ⊢
    exact .quiet unsent labelled fun _ _ => empty
  · rw [recv_taken call empty] at labelled ⊢
    refine .taken call _ _ unsent runs labelled (List.take_append_drop _ _) ?_
      (value_negative call _ (Nat.min_le_left _ _))
    rw [List.length_take, Nat.min_eq_left (Nat.min_le_right _ _)]

theorem change_send (m : Monitor τ (List Byte) RecvCall) (t : τ) (res : CInt) (buf : List Byte) :
    Change m (.enter t (.send res buf) (send res buf m.shared).next)
      (send res buf m.shared).shared := by
  by_cases failed : res.toInt < 0
  · simp only [send, if_pos failed]
    refine .quiet (if_pos failed) rfl ?_
    intro call other
    cases other
  · simp only [send, if_neg failed, pushAll_eq]
    exact .sent buf (if_neg failed) rfl rfl

variable [DecidableEq τ]

theorem change_step {m after : Monitor τ (List Byte) RecvCall} {e : StreamEvent τ}
    (step : StreamStep m e after) : Change m e after.shared := by
  cases step with
  | @enter t call out status free runs notified =>
    cases call with
    | send res buf =>
      obtain rfl : out = send res buf m.shared := runs
      exact change_send m t res buf
    | recv call =>
      obtain rfl : out = recv call m.shared := runs
      refine change_recv rfl rfl ?_
      cases (recv call m.shared).next <;> rfl
  | @resume t call out status woken runs notified =>
    obtain rfl : out = recv call m.shared := runs
    refine change_recv rfl rfl ?_
    cases (recv call m.shared).next <;> rfl
  | wake asleep =>
    refine .quiet rfl rfl ?_
    intro call other
    cases other

/-! ## Exactly when a step loses nothing -/

omit [DecidableEq τ] in
/-- Taking a part off the front leaves the buffer unchanged only if the part is empty. -/
theorem rest_eq_iff {front rest buffer : List Byte} (whole : front ++ rest = buffer) :
    rest = buffer ↔ front.length = 0 := by
  rw [← whole]
  constructor
  · intro same
    have lengths := congrArg List.length same
    rw [List.length_append] at lengths
    omega
  · intro empty
    rw [List.length_eq_zero_iff.mp empty, List.nil_append]

theorem keeps_iff_harmless {m after : Monitor τ (List Byte) RecvCall} {e : StreamEvent τ}
    (step : StreamStep m e after) : Keeps m e after ↔ Harmless m e := by
  have change := change_step step
  rw [Keeps]
  generalize after.shared = rest at change ⊢
  cases change with
  | quiet _ _ takes =>
    refine iff_of_true (fun _ _ _ _ => rfl) ?_
    intro call runs
    rw [takes call runs]
    exact Or.inl (Nat.min_zero _)
  | sent buf _ unfinished other =>
    refine iff_of_true ?_ ?_
    · intro call r done
      rw [unfinished] at done
      cases done
    · intro call runs
      rw [other] at runs
      cases runs
  | taken call r rest _ runs done whole length fails =>
    have taken := rest_eq_iff whole
    rw [length] at taken
    constructor
    · intro keeps call' runs'
      obtain rfl := Option.some.inj (runs.symm.trans runs')
      by_cases negative : r.value.toInt < 0
      · exact Or.inl (taken.mp (keeps call r done negative))
      · exact Or.inr (Decidable.not_not.mp (fun h => negative (fails.mpr h)))
    · intro harmless call' r' done' negative
      obtain ⟨rfl, rfl⟩ := Prod.mk.inj (Option.some.inj (done.symm.trans done'))
      rcases harmless call runs with nothing | success
      · exact taken.mpr nothing
      · exact absurd success (fails.mp negative)

theorem conserved_iff_keeps {past : List (StreamEvent τ)}
    {m after : Monitor τ (List Byte) RecvCall} {e : StreamEvent τ} (conserved : Conserved past m)
    (step : StreamStep m e after) : Conserved (past ++ [e]) after ↔ Keeps m e after := by
  have change := change_step step
  rw [Conserved] at conserved
  rw [Conserved, Keeps, received_snoc, blocks_snoc, List.flatten_append, ← conserved]
  generalize after.shared = rest at change ⊢
  cases change with
  | quiet unsent unfinished _ =>
    rw [unsent, unfinished]
    exact iff_of_true (by simp) (fun _ _ done => nomatch done)
  | sent buf block unfinished _ =>
    rw [block, unfinished]
    exact iff_of_true (by simp) (fun _ _ done => nomatch done)
  | taken call r rest unsent _ done whole _ _ =>
    rw [unsent, done]
    by_cases negative : r.value.toInt < 0
    · have same : rest = m.shared ↔ ∀ call' r', some (call, r) = some (call', r') →
          r'.value.toInt < 0 → rest = m.shared :=
        ⟨fun same _ _ _ _ => same, fun keeps => keeps call r rfl negative⟩
      rw [← same]
      simp [negative]
    · refine iff_of_true ?_ ?_
      · simp [negative, whole]
      · intro call' r' same negative'
        obtain ⟨-, rfl⟩ := Prod.mk.inj (Option.some.inj same)
        exact absurd negative' negative

/-- A step whose recv, if it is one, is harmless. -/
def GentleStep (m : Monitor τ (List Byte) RecvCall) (e : StreamEvent τ)
    (after : Monitor τ (List Byte) RecvCall) : Prop :=
  StreamStep m e after ∧ Harmless m e

/-- In every run in which every recv takes nothing or succeeds, the bytes received and
then the buffer are the blocks sent. In every run whatever, a step leaves the buffer of a
failing recv unchanged exactly if it is harmless, and keeps the stream whole exactly then. -/
theorem recv_keeps_iff :
    (∀ (past : List (StreamEvent τ)) m, Path GentleStep (idle []) past m →
      received past ++ m.shared = (blocks past).flatten ∧
        ∀ e after, GentleStep m e after → Keeps m e after) ∧
      ∀ (past : List (StreamEvent τ)) m e after, Path StreamStep (idle []) past m →
        StreamStep m e after → (Keeps m e after ↔ Harmless m e) ∧
          (Conserved past m → (Conserved (past ++ [e]) after ↔ Harmless m e)) := by
  refine ⟨?_, ?_⟩
  · intro past m path
    refine ⟨?_, fun e after step => (keeps_iff_harmless step.1).mpr step.2⟩
    refine history_invariant Conserved (show Conserved [] (idle []) from rfl) ?_ path
    rintro past t e u conserved ⟨step, harmless⟩
    exact (conserved_iff_keeps conserved step).mpr ((keeps_iff_harmless step).mpr harmless)
  · intro past m e after _ step
    refine ⟨keeps_iff_harmless step, ?_⟩
    intro conserved
    exact (conserved_iff_keeps conserved step).trans (keeps_iff_harmless step)

/-- A recv of no bytes fails and one of two bytes succeeds. -/
theorem recv_keeps_failed_empty :
    ∃ (past : List (StreamEvent Nat)) (m : Monitor Nat (List Byte) RecvCall),
      Path GentleStep (idle []) past m ∧ (blocks past).flatten = [1, 2, 3] ∧
        received past = [1, 2] ∧ received past ++ m.shared = [1, 2, 3] := by
  let s₀ : Nat → Status RecvCall := fun _ => .outside
  let s₁ := Function.update (fun t => (s₀ t).rouse) 0 .outside
  let empty : RecvCall := ⟨0, -14⟩
  let two : RecvCall := ⟨2, 0⟩
  have sends : GentleStep ⟨[], s₀⟩ (.enter 0 (.send 3 [1, 2, 3]) (send 3 [1, 2, 3] []).next)
      ⟨[1, 2, 3], s₁⟩ := ⟨.enter rfl rfl .all, fun _ other => nomatch other⟩
  have fails : GentleStep ⟨[1, 2, 3], s₁⟩ (.enter 1 (.recv empty) (recv empty [1, 2, 3]).next)
      ⟨[1, 2, 3], Function.update s₁ 1 .outside⟩ := by
    refine ⟨.enter rfl rfl .none, ?_⟩
    intro call runs
    obtain rfl := Option.some.inj runs
    exact Or.inl rfl
  have takes : GentleStep ⟨[1, 2, 3], Function.update s₁ 1 .outside⟩
      (.enter 1 (.recv two) (recv two [1, 2, 3]).next)
      ⟨[3], Function.update (Function.update s₁ 1 .outside) 1 .outside⟩ := by
    refine ⟨.enter rfl rfl .none, ?_⟩
    intro call runs
    obtain rfl := Option.some.inj runs
    exact Or.inr (by decide)
  have path := ((Path.start.snoc sends).snoc fails).snoc takes
  exact ⟨_, _, path, rfl, rfl, (recv_keeps_iff.1 _ _ path).1⟩

/-- A recv of three bytes whose callback fails with EFAULT. -/
theorem failed_recv_loses :
    ∃ (past : List (StreamEvent Nat)) (m after : Monitor Nat (List Byte) RecvCall)
      (e : StreamEvent Nat), Path StreamStep (idle []) past m ∧ StreamStep m e after ∧
        ¬Keeps m e after ∧ ¬Conserved (past ++ [e]) after := by
  let s₀ : Nat → Status RecvCall := fun _ => .outside
  let s₁ := Function.update (fun t => (s₀ t).rouse) 0 .outside
  let call : RecvCall := ⟨3, -14⟩
  have sends : StreamStep ⟨[], s₀⟩ (.enter 0 (.send 3 [1, 2, 3]) (send 3 [1, 2, 3] []).next)
      ⟨[1, 2, 3], s₁⟩ := .enter rfl rfl .all
  have fails : StreamStep ⟨[1, 2, 3], s₁⟩ (.enter 1 (.recv call) (recv call [1, 2, 3]).next)
      ⟨[], Function.update s₁ 1 .outside⟩ := .enter rfl rfl .none
  refine ⟨_, _, _, _, Path.start.snoc sends, fails, ?_, ?_⟩
  · intro keeps
    exact absurd (keeps call _ rfl (by decide)) (by decide)
  · intro conserved
    have bytes : ([] : List Byte) = [1, 2, 3] := conserved
    cases bytes

end FailedReceives
