import Redstone.StreamBytes

/-!
# Waiting for bytes of a stream

A send to a stream socket notifies everybody who waits, and a recv waits only at an empty
buffer. So a recv that is blocked while there are bytes needs nothing but the lock: when it
gets it, it returns, unless others have taken all bytes before.
-/

namespace StreamLiveness

open MachineWords Monitors StreamBytes Function

variable {τ : Type} [DecidableEq τ]

/-- Who sleeps without having been notified finds the buffer empty. -/
abbrev Awake : Monitor τ (List Byte) RecvCall → Prop := Sound fun _ buffer => buffer = []

theorem recv_waits {call k : RecvCall} {buffer : List Byte}
    (waits : (recv call buffer).next = .waits k) : (recv call buffer).shared = [] := by
  rcases recv_cases call buffer with ⟨empty, here⟩ | ⟨r, rest, here, -⟩
  · rw [here]
    exact empty
  · rw [here] at waits
    cases waits

theorem recv_signal (call : RecvCall) (buffer : List Byte) :
    (recv call buffer).signal = .none := by
  rcases recv_cases call buffer with ⟨-, here⟩ | ⟨r, rest, here, -⟩ <;> rw [here]

theorem recv_empty (call : RecvCall) : (recv call []).shared = [] := by
  rw [recv, if_pos rfl]

theorem awake_step {m after : Monitor τ (List Byte) RecvCall} {e : StreamEvent τ}
    (awake : Awake m) (step : StreamStep m e after) : Awake after := by
  refine sound_step ?_ ?_ ?_ step awake
  · rintro out k (⟨call, runs⟩ | ⟨call, runs⟩) waits
    · cases call with
      | recv call =>
        obtain rfl : out = recv call m.shared := runs
        exact recv_waits waits
      | send res buf =>
        obtain rfl : out = send res buf m.shared := runs
        rw [send] at waits
        split at waits <;> cases waits
    · obtain rfl : out = recv call m.shared := runs
      exact recv_waits waits
  · rintro out k (⟨call, runs⟩ | ⟨call, runs⟩) silent empty
    · cases call with
      | recv call =>
        obtain rfl : out = recv call m.shared := runs
        rw [empty]
        exact recv_empty call
      | send res buf =>
        obtain rfl : out = send res buf m.shared := runs
        rw [send] at silent ⊢
        split at silent
        · rwa [if_pos ‹_›]
        · cases silent
    · obtain rfl : out = recv call m.shared := runs
      rw [empty]
      exact recv_empty call
  · rintro out (⟨call, runs⟩ | ⟨call, runs⟩) one
    · cases call with
      | recv call =>
        obtain rfl : out = recv call m.shared := runs
        rw [recv_signal] at one
        cases one
      | send res buf =>
        obtain rfl : out = send res buf m.shared := runs
        rw [send] at one
        split at one <;> cases one
    · obtain rfl : out = recv call m.shared := runs
      rw [recv_signal] at one
      cases one

/-- A section that completes no recv takes no bytes. -/
theorem bytes_stay {m after : Monitor τ (List Byte) RecvCall} {e : StreamEvent τ}
    (bytes : m.shared ≠ []) (step : StreamStep m e after) (silent : completed e = none) :
    after.shared ≠ [] := by
  cases step with
  | @enter t call out status free runs notified =>
    cases call with
    | recv call =>
      obtain rfl : out = recv call m.shared := runs
      rcases recv_cases call m.shared with ⟨empty, -⟩ | ⟨r, rest, here, -⟩
      · exact absurd empty bytes
      · rw [here] at silent
        cases silent
    | send res buf =>
      obtain rfl : out = send res buf m.shared := runs
      change (send res buf m.shared).shared ≠ []
      rw [send]
      split
      · exact bytes
      · rw [pushAll_eq]
        exact List.append_ne_nil_of_left_ne_nil bytes buf
  | @resume t call out status woken runs notified =>
    obtain rfl : out = recv call m.shared := runs
    rcases recv_cases call m.shared with ⟨empty, -⟩ | ⟨r, rest, here, -⟩
    · exact absurd empty bytes
    · rw [here] at silent
      cases silent
  | wake asleep => exact bytes

/-- A thread that gets the lock with bytes in the buffer returns some of them. -/
theorem resume_returns {m after : Monitor τ (List Byte) RecvCall} {t : τ} {call : RecvCall}
    {next : Next Returned RecvCall} (bytes : m.shared ≠ [])
    (step : StreamStep m (.resume t call next) after) :
    ∃ r, next = .leaves r ∧ (1 ≤ call.bytes.toNat → r.handed ≠ []) := by
  cases step with
  | @resume _ _ out status woken runs notified =>
    obtain rfl : out = recv call m.shared := runs
    rcases recv_cases call m.shared with ⟨empty, -⟩ | ⟨r, rest, here, -, length, some, -⟩
    · exact absurd empty bytes
    · rw [here]
      refine ⟨r, rfl, fun asked => List.ne_nil_of_length_pos ?_⟩
      omega

/-- In every run in which the lock is granted, a recv that is blocked while there are bytes
returns some, or another thread's recv returns. -/
theorem recv_returns (run : Run (τ := τ) streamSocket (idle [])) (granted : run.Granted) {n : Nat}
    {t : τ} {call : RecvCall} (blocked : ((run.states n).status t).blocked = some call)
    (bytes : (run.states n).shared ≠ []) :
    ∃ m, n ≤ m ∧ ((∃ r, run.events m = .resume t call (.leaves r) ∧
        (1 ≤ call.bytes.toNat → r.handed ≠ [])) ∨
      ∃ u r, u ≠ t ∧ (run.events m).runs = some u ∧ completed (run.events m) = some r) := by
  have awake : Awake (run.states n) :=
    run.invariant (sound_idle []) (fun _ _ _ => awake_step) n
  have woken : (run.states n).status t = .woken call := by
    cases status : (run.states n).status t with
    | outside =>
      rw [status] at blocked
      cases blocked
    | asleep k => exact absurd (awake t k status) bytes
    | woken k =>
      rw [status] at blocked
      cases blocked
      rfl
  by_cases others : ∃ m u r, n ≤ m ∧ u ≠ t ∧ (run.events m).runs = some u ∧
      completed (run.events m) = some r
  · obtain ⟨m, u, r, later, other, runs, took⟩ := others
    exact ⟨m, later, Or.inr ⟨u, r, other, runs, took⟩⟩
  · obtain ⟨m, next, later, resumes, waits⟩ := run.next_resume granted woken
    -- Until the lock is granted to `t`, nobody completes a recv, so the bytes stay.
    have remain : ∀ d, n + d ≤ m → (run.states (n + d)).shared ≠ [] := by
      intro d within
      induction d with
      | zero => exact bytes
      | succ d ih =>
        refine bytes_stay (ih (by omega)) (run.steps (n + d)) ?_
        cases took : completed (run.events (n + d)) with
        | none => rfl
        | some r =>
          cases runs : (run.events (n + d)).runs with
          | none =>
            cases e : run.events (n + d) with
            | enter u call next =>
              rw [e] at runs
              cases runs
            | resume u call next =>
              rw [e] at runs
              cases runs
            | wake u =>
              rw [e] at took
              cases took
          | some u =>
            by_cases same : u = t
            · subst same
              exact absurd (waits (n + d + 1) (by omega) within)
                (status_runs (run.steps (n + d)) runs call)
            · exact absurd ⟨n + d, u, r, by omega, same, runs, took⟩ others
    obtain ⟨d, rfl⟩ := Nat.exists_eq_add_of_le later
    have step := run.steps (n + d)
    rw [resumes] at step
    obtain ⟨r, rfl, some⟩ := resume_returns (remain d (Nat.le_refl _)) step
    exact ⟨n + d, later, Or.inl ⟨r, resumes, some⟩⟩

/-- A thread receives two bytes, and another one sends a block of three and then only empty
blocks. -/
def threeBytes : Run (τ := Bool) streamSocket (idle []) where
  states
    | 0 => idle []
    | 1 => ⟨[], update (fun _ => .outside) false (.asleep ⟨2, 0⟩)⟩
    | 2 => ⟨[1, 2, 3], update (fun _ => .outside) false (.woken ⟨2, 0⟩)⟩
    | _ + 3 => idle [3]
  events
    | 0 => .enter false (.recv ⟨2, 0⟩) (.waits ⟨2, 0⟩)
    | 1 => .enter true (.send 0 [1, 2, 3]) (.leaves ⟨0, []⟩)
    | 2 => .resume false ⟨2, 0⟩ (.leaves ⟨2, [1, 2]⟩)
    | _ + 3 => .enter true (.send 0 []) (.leaves ⟨0, []⟩)
  starts := rfl
  steps := by
    have becomes : ∀ {m after after' : Monitor Bool (List Byte) RecvCall} {e : StreamEvent Bool},
        StreamStep m e after → after.shared = after'.shared →
        (∀ t, after.status t = after'.status t) → StreamStep m e after' := by
      rintro m ⟨shared, status⟩ ⟨shared', status'⟩ e step rfl same
      rwa [show status = status' from funext same] at step
    rintro (_ | _ | _ | n)
    · exact .enters rfl rfl .none
    · exact becomes (.enters rfl rfl .all) rfl (Bool.forall_bool.mpr ⟨rfl, rfl⟩)
    · exact becomes (.resumes rfl rfl .none) rfl (Bool.forall_bool.mpr ⟨rfl, rfl⟩)
    · exact becomes (.enters rfl rfl .all) rfl (Bool.forall_bool.mpr ⟨rfl, rfl⟩)

theorem recv_returns_two :
    ∃ m, 2 ≤ m ∧ ((∃ r, threeBytes.events m = .resume false ⟨2, 0⟩ (.leaves r) ∧
        (1 ≤ (2 : U64).toNat → r.handed ≠ [])) ∨
      ∃ u r, u ≠ false ∧ (threeBytes.events m).runs = some u ∧
        completed (threeBytes.events m) = some r) := by
  have granted : threeBytes.Granted := by
    rintro (_ | _ | _ | n) (_ | _) k woken <;> cases woken
    exact ⟨2, _, Nat.le_refl 2, rfl⟩
  exact recv_returns threeBytes granted (n := 2) rfl (List.cons_ne_nil 1 [2, 3])

end StreamLiveness
