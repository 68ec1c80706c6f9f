import Mathlib.Data.Rat.Floor
import Mathlib.Tactic.Linarith
import Mathlib.Tactic.NormNum
import Redstone.ChildMemory
import Redstone.StepRuns
import Redstone.TraceLoop

/-!
# The scaled clock

`sys_clock_gettime` divides the time since a replica's epoch by the scale and
`sys_clock_nanosleep` multiplies its request by it. Time is exact: durations of doubles
are rationals, counts of nanoseconds are integers, and nothing overflows. Of `sleep_for`
it is assumed that it takes at least as long as it is asked to.
-/

namespace VirtualClock

open MachineWords ChildMemory StepRuns
open ByteWindows (window window_overlay)
open TraceLoop (Args HookResult)

/-- `struct timespec`. -/
structure Timespec where
  tvSec : Int
  tvNsec : Int
  deriving DecidableEq

namespace Timespec

def nanoseconds (tm : Timespec) : Int := tm.tvSec * 10 ^ 9 + tm.tvNsec

/-- The two words of the structure in memory. -/
def toBytes (tm : Timespec) : List Byte :=
  ByteWindows.bytesOf (BitVec.ofInt 64 tm.tvSec) ++ ByteWindows.bytesOf (BitVec.ofInt 64 tm.tvNsec)

def ofBytes (bytes : List Byte) : Timespec :=
  ⟨(ByteWindows.ofBytes (bytes.take 8)).toInt, (ByteWindows.ofBytes (bytes.drop 8)).toInt⟩

/-- The order of points in time. -/
def NotAfter (tm tm' : Timespec) : Prop :=
  tm.tvSec < tm'.tvSec ∨ tm.tvSec = tm'.tvSec ∧ tm.tvNsec ≤ tm'.tvNsec

end Timespec

/-- The simulator's `time_scale` and the replica's `epoch_`, in nanoseconds. -/
structure Scale where
  timeScale : ℚ
  epoch : Int

/-- `duration_cast` of nanoseconds to a unit of so many: it truncates towards zero. -/
def durationCast (unit t : ℚ) : Int :=
  if 0 ≤ t then (t / unit).floor else (t / unit).ceil

/-- `new_time`, for the clock reading `now`. -/
def newTime (c : Scale) (now : Int) : ℚ :=
  let sinceEpoch : ℚ := now - c.epoch
  c.epoch + sinceEpoch / c.timeScale

def timespecOf (t : ℚ) : Timespec :=
  let tvSec := durationCast (10 ^ 9) t
  ⟨tvSec, durationCast 1 (t - tvSec * 10 ^ 9)⟩

/-- The result, the structure `tm` and the memory it is written to. -/
def sysClockGettime (c : Scale) (now : Int) (memory : Memory) (args : Args) :
    HookResult × Timespec × Memory :=
  let tm := timespecOf (newTime c now)
  let (res, memory) := writeMemory memory (args.get 1) tm.toBytes
  if res.toInt < 0 then (.handled (res.signExtend 64), tm, memory) else (.handled 0, tm, memory)

/-- The result, and the request with the duration that `sleep_for` is called with. -/
def sysClockNanosleep (c : Scale) (memory : Memory) (args : Args) :
    HookResult × Option (Timespec × ℚ) :=
  let (res, bytes) := readMemory memory (args.get 2) (List.replicate 16 0)
  if res.toInt < 0 then (.handled (res.signExtend 64), none)
  else
    let tm := Timespec.ofBytes bytes
    let duration : Int := tm.tvSec * 10 ^ 9 + tm.tvNsec
    (.handled 0, some (tm, (duration : ℚ) * c.timeScale))

/-! ## A replica in time -/

/-- The `timespec` behind a pointer is `tm`. -/
def Holds (memory : Memory) (res : U64) (tm : Timespec) : Prop :=
  window memory res 16 = tm.toBytes.map some

/-- A replica's program, with what the steady clock reads. -/
structure Replica where
  clock : Int
  memory : Memory

inductive ClockEvent where
  | gettime (now : Int) (res : U64) (tm : Timespec)
  | nanosleep (request : Timespec)
  | compute

/-- The steady clock does not go back. -/
def ClockStep (c : Scale) (s : Replica) : ClockEvent → Replica → Prop
  | .gettime now res tm, after =>
    s.clock ≤ now ∧ after.clock = now ∧ ∃ args : Args, args.get 1 = res ∧
      sysClockGettime c now s.memory args = (.handled 0, tm, after.memory)
  | .nanosleep request, after =>
    s.clock ≤ after.clock ∧ after.memory = s.memory ∧
      ∃ args duration, sysClockNanosleep c s.memory args = (.handled 0, some (request, duration)) ∧
        (s.clock : ℚ) + duration ≤ after.clock
  | .compute, after => s.clock ≤ after.clock

/-- What the sleeps among the events asked for; a negative request asks for nothing. -/
def slept : List ClockEvent → Int
  | [] => 0
  | .nanosleep request :: rest => max 0 request.nanoseconds + slept rest
  | _ :: rest => slept rest

theorem slept_append (first second : List ClockEvent) :
    slept (first ++ second) = slept first + slept second := by
  induction first with
  | nil => exact (Int.zero_add _).symm
  | cons e rest ih =>
    cases e with
    | nanosleep request => simp only [List.cons_append, slept, ih, Int.add_assoc]
    | gettime now res tm => exact ih
    | compute => exact ih

theorem slept_nonneg (events : List ClockEvent) : 0 ≤ slept events := by
  induction events with
  | nil => exact Int.le_refl 0
  | cons e rest ih =>
    cases e with
    | nanosleep request =>
      rw [slept]
      omega
    | gettime now res tm => exact ih
    | compute => exact ih

theorem le_slept {events : List ClockEvent} {request : Timespec}
    (member : .nanosleep request ∈ events) : request.nanoseconds ≤ slept events := by
  obtain ⟨before, after, rfl⟩ := List.append_of_mem member
  have front := slept_nonneg before
  have back := slept_nonneg after
  rw [slept_append, slept]
  omega

/-! ## One reading -/

/-- Of a time that is not negative both casts truncate downwards. -/
theorem timespecOf_spec {t : ℚ} (nonneg : 0 ≤ t) :
    0 ≤ (timespecOf t).tvNsec ∧ (timespecOf t).tvNsec < 10 ^ 9 ∧
      (timespecOf t).nanoseconds = ⌊t⌋ := by
  have seconds : (timespecOf t).tvSec = ⌊t / 10 ^ 9⌋ := if_pos nonneg
  have lower : (⌊t / 10 ^ 9⌋ : ℚ) * 10 ^ 9 ≤ t := by
    have below := Int.floor_le (t / 10 ^ 9)
    rwa [le_div_iff₀ (by norm_num)] at below
  have upper : t < (⌊t / 10 ^ 9⌋ + 1 : ℚ) * 10 ^ 9 := by
    have above := Int.lt_floor_add_one (t / 10 ^ 9)
    rwa [div_lt_iff₀ (by norm_num)] at above
  have rest : (timespecOf t).tvNsec = ⌊t⌋ - ⌊t / 10 ^ 9⌋ * 10 ^ 9 := by
    have cast : (timespecOf t).tvNsec = ⌊(t - (⌊t / 10 ^ 9⌋ : ℚ) * 10 ^ 9) / 1⌋ := by
      rw [← seconds]
      refine if_pos ?_
      change 0 ≤ t - ((timespecOf t).tvSec : ℚ) * 10 ^ 9
      rw [seconds]
      linarith
    have whole : (⌊t / 10 ^ 9⌋ : ℚ) * 10 ^ 9 = ((⌊t / 10 ^ 9⌋ * 10 ^ 9 : Int) : ℚ) := by
      push_cast
      rfl
    rw [cast, div_one, whole, Int.floor_sub_intCast]
  have first : ⌊t / 10 ^ 9⌋ * 10 ^ 9 ≤ ⌊t⌋ := by
    apply Int.le_floor.mpr
    push_cast
    exact lower
  have last : ⌊t⌋ < (⌊t / 10 ^ 9⌋ + 1) * 10 ^ 9 := by
    apply Int.floor_lt.mpr
    push_cast
    exact upper
  refine ⟨?_, ?_, ?_⟩
  · omega
  · omega
  · rw [Timespec.nanoseconds, seconds, rest]
    omega

/-- Between well-formed timespecs the order is that of the nanoseconds. -/
theorem notAfter_of_le {tm tm' : Timespec} (nonneg : 0 ≤ tm.tvNsec) (small : tm'.tvNsec < 10 ^ 9)
    (later : tm.nanoseconds ≤ tm'.nanoseconds) : tm.NotAfter tm' := by
  rw [Timespec.nanoseconds, Timespec.nanoseconds] at later
  rw [Timespec.NotAfter]
  omega

theorem newTime_nonneg {c : Scale} (positive : 0 < c.timeScale) (epoch : 0 ≤ c.epoch) {now : Int}
    (started : c.epoch ≤ now) : 0 ≤ newTime c now := by
  have first : (0 : ℚ) ≤ c.epoch := by exact_mod_cast epoch
  have since : (0 : ℚ) ≤ now - c.epoch := by
    have order : (c.epoch : ℚ) ≤ now := by exact_mod_cast started
    linarith
  have scaled := div_nonneg since positive.le
  rw [newTime]
  linarith

/-- A sleep of `d` scaled nanoseconds between two readings is one of `d` virtual ones. -/
theorem floor_newTime {c : Scale} (positive : 0 < c.timeScale) {now now' d : Int}
    (later : (now : ℚ) + d * c.timeScale ≤ now') : ⌊newTime c now⌋ + d ≤ ⌊newTime c now'⌋ := by
  have scaled : (now - c.epoch : ℚ) / c.timeScale + d ≤ (now' - c.epoch : ℚ) / c.timeScale := by
    rw [le_div_iff₀ positive, add_mul, div_mul_cancel₀ _ positive.ne']
    linarith
  have order : newTime c now + d ≤ newTime c now' := by
    rw [newTime, newTime]
    linarith
  calc ⌊newTime c now⌋ + d = ⌊newTime c now + d⌋ := (Int.floor_add_intCast _ d).symm
    _ ≤ ⌊newTime c now'⌋ := Int.floor_le_floor order

/-! ## Runs -/

/-- Neither memory access fails, so neither call does. -/
theorem sysClockGettime_eq (c : Scale) (now : Int) (memory : Memory) (args : Args) :
    sysClockGettime c now memory args = (.handled 0, timespecOf (newTime c now),
      (writeMemory memory (args.get 1) (timespecOf (newTime c now)).toBytes).2) := by
  simp only [sysClockGettime, writeMemory_zero]
  rfl

theorem sysClockNanosleep_eq (c : Scale) {memory : Memory} {args : Args} {request : Timespec}
    (read : Timespec.ofBytes (readMemory memory (args.get 2) (List.replicate 16 0)).2 = request) :
    sysClockNanosleep c memory args =
      (.handled 0, some (request, (request.nanoseconds : ℚ) * c.timeScale)) := by
  simp only [sysClockNanosleep, readMemory_zero, read]
  rfl

theorem gettime_timespec {c : Scale} {s after : Replica} {now : Int} {res : U64} {tm : Timespec}
    (step : ClockStep c s (.gettime now res tm) after) : tm = timespecOf (newTime c now) := by
  obtain ⟨-, -, args, -, called⟩ := step
  rw [sysClockGettime_eq] at called
  exact (Prod.mk.inj (Prod.mk.inj called).2).1.symm

theorem length_toBytes (tm : Timespec) : tm.toBytes.length = 16 := by
  rw [Timespec.toBytes, List.length_append, ByteWindows.length_bytesOf,
    ByteWindows.length_bytesOf]

/-- A structure of two words has no tail, so all of it is stored where it is mapped. -/
theorem writeMemory_timespec {memory : Memory} {res : U64} {tm : Timespec}
    (mapped : Mapped memory res 16) : Holds (writeMemory memory res tm.toBytes).2 res tm := by
  have sixteen := length_toBytes tm
  have whole : stored memory res tm.toBytes = tm.toBytes :=
    stored_all (Or.inl (by rw [sixteen]))
  have fits : (tm.toBytes.map some).length ≤ 2 ^ 64 := by
    rw [List.length_map, sixteen]
    decide
  rw [writeMemory_mapped (by rw [sixteen]; decide) (by rwa [sixteen]), whole, Holds]
  have content := window_overlay (m := memory) (p := res) fits
  rwa [List.length_map, sixteen] at content

/-- After the call the program finds the structure at the address it gave. -/
theorem gettime_holds {c : Scale} {s after : Replica} {now : Int} {res : U64} {tm : Timespec}
    (step : ClockStep c s (.gettime now res tm) after) (mapped : Mapped s.memory res 16) :
    Holds after.memory res tm := by
  obtain ⟨-, -, args, rfl, called⟩ := step
  rw [sysClockGettime_eq] at called
  obtain ⟨rfl, rest⟩ := Prod.mk.inj (Prod.mk.inj called).2
  rw [← rest]
  exact writeMemory_timespec mapped

/-- A step takes at least as long as the sleep in it, scaled. -/
theorem clock_step {c : Scale} {s after : Replica} {e : ClockEvent}
    (step : ClockStep c s e after) : (s.clock : ℚ) + slept [e] * c.timeScale ≤ after.clock := by
  have idle : s.clock ≤ after.clock → (s.clock : ℚ) + (0 : Int) * c.timeScale ≤ after.clock := by
    intro forward
    rw [Int.cast_zero, zero_mul, add_zero]
    exact_mod_cast forward
  cases e with
  | gettime now res tm =>
    obtain ⟨forward, rfl, -⟩ := step
    exact idle forward
  | compute => exact idle step
  | nanosleep request =>
    obtain ⟨forward, -, args, duration, called, long⟩ := step
    rw [sysClockNanosleep_eq c rfl] at called
    obtain ⟨same, rfl⟩ := Prod.mk.inj (Option.some.inj (Prod.mk.inj called).2)
    rw [same] at long
    by_cases asks : 0 ≤ request.nanoseconds
    · rw [slept, slept, max_eq_right asks, Int.add_zero]
      exact long
    · rw [slept, slept, max_eq_left (by omega), Int.add_zero]
      exact idle forward

theorem clock_path {c : Scale} {s after : Replica}
    {past : List ClockEvent} (path : Path (ClockStep c) s past after) :
    (s.clock : ℚ) + slept past * c.timeScale ≤ after.clock := by
  refine history_invariant (fun events t => (s.clock : ℚ) + slept events * c.timeScale ≤ t.clock)
    ?_ ?_ path
  · rw [slept, Int.cast_zero, zero_mul, add_zero]
  · intro events t e u inv step
    have last := clock_step step
    rw [slept_append, Int.cast_add, add_mul]
    linarith

theorem clock_forward {c : Scale} (positive : 0 < c.timeScale) {s after : Replica}
    {past : List ClockEvent} (path : Path (ClockStep c) s past after) : s.clock ≤ after.clock := by
  have spent : (0 : ℚ) ≤ slept past * c.timeScale :=
    mul_nonneg (by exact_mod_cast slept_nonneg past) positive.le
  have forward := clock_path path
  have order : (s.clock : ℚ) ≤ after.clock := by linarith
  exact_mod_cast order

/-- For every positive scale, every epoch and every run of a replica's program: each
timespec that is handed out is well formed and denotes the scaled time rounded down; when
the call returns, its two words are in memory behind the pointer that was passed, if that is
mapped; and of two in a row the second is later by at least what the sleeps between them
asked for. -/
theorem virtual_time_consistent {c : Scale} (positive : 0 < c.timeScale) (epoch : 0 ≤ c.epoch)
    {start after : Replica} (started : c.epoch ≤ start.clock) {past : List ClockEvent}
    (path : Path (ClockStep c) start past after) :
    (∀ (now : Int) res tm, .gettime now res tm ∈ past →
      0 ≤ tm.tvNsec ∧ tm.tvNsec < 10 ^ 9 ∧
        tm.nanoseconds = ⌊(c.epoch + (now - c.epoch) / c.timeScale : ℚ)⌋) ∧
      (∀ before now res tm rest, past = before ++ .gettime now res tm :: rest →
        ∃ s t, Path (ClockStep c) start before s ∧ ClockStep c s (.gettime now res tm) t ∧
          Path (ClockStep c) t rest after ∧ (Mapped s.memory res 16 → Holds t.memory res tm)) ∧
      ∀ before now res tm between now' res' tm' rest,
        past = before ++ .gettime now res tm :: (between ++ .gettime now' res' tm' :: rest) →
          tm.NotAfter tm' ∧ tm.nanoseconds + slept between ≤ tm'.nanoseconds ∧
          ∀ request, .nanosleep request ∈ between → 0 ≤ request.nanoseconds →
            tm.nanoseconds + request.nanoseconds ≤ tm'.nanoseconds := by
  have written : ∀ now res tm, .gettime now res tm ∈ past → 0 ≤ tm.tvNsec ∧ tm.tvNsec < 10 ^ 9 ∧
      tm.nanoseconds = ⌊newTime c now⌋ := by
    intro now res tm member
    obtain ⟨before, rest, cut⟩ := List.append_of_mem member
    obtain ⟨s, t, earlier, step, -⟩ := path_event path cut
    rw [gettime_timespec step]
    have forward := clock_forward positive earlier
    exact timespecOf_spec (newTime_nonneg positive epoch
      (Int.le_trans started (Int.le_trans forward step.1)))
  refine ⟨written, ?_, ?_⟩
  · intro before now res tm rest cut
    obtain ⟨s, t, front, step, back⟩ := path_event path cut
    exact ⟨s, t, front, step, back, gettime_holds step⟩
  intro before now res tm between now' res' tm' rest cut
  have first := written now res tm (by simp [cut])
  have second := written now' res' tm' (by simp [cut])
  obtain ⟨s, t, -, step, later⟩ := path_event path cut
  obtain ⟨u, u', middle, step', -⟩ := path_event later rfl
  have spent := clock_path middle
  rw [step.2.1] at spent
  have reading : (u.clock : ℚ) ≤ now' := by exact_mod_cast step'.1
  have apart : tm.nanoseconds + slept between ≤ tm'.nanoseconds := by
    rw [first.2.2, second.2.2]
    exact floor_newTime positive (by linarith)
  have nonneg := slept_nonneg between
  refine ⟨notAfter_of_le first.1 second.2.1 (by omega), apart, ?_⟩
  intro request member asks
  have part := le_slept member
  omega

/-- A request of five nanoseconds at the demo's scale of a hundredth: the second reading is
in memory at address 100 when the run ends. -/
theorem virtual_time_consistent_nap :
    ∃ past : List ClockEvent, .nanosleep ⟨0, 5⟩ ∈ past ∧
      (∃ after, Path (ClockStep ⟨1 / 100, 0⟩) ⟨0, total fun _ => 0⟩ past after ∧
        Holds after.memory 100 ⟨0, 10100⟩) ∧
      (⟨0, 10000⟩ : Timespec).nanoseconds + (⟨0, 5⟩ : Timespec).nanoseconds ≤
        (⟨0, 10100⟩ : Timespec).nanoseconds := by
  let c : Scale := ⟨1 / 100, 0⟩
  let memory : Memory := total fun a => if a = 8 then 5 else 0
  let args : Args := #v[0, 100, 0, 0, 0, 0]
  have read : ∀ (s : Replica) (now : Int) (tm : Timespec), timespecOf (newTime c now) = tm →
      s.clock ≤ now → ∃ after, ClockStep c s (.gettime now 100 tm) ⟨now, after⟩ := by
    rintro s now tm rfl forward
    exact ⟨_, forward, rfl, args, rfl, sysClockGettime_eq c now s.memory args⟩
  obtain ⟨written, early⟩ :=
    read ⟨0, total fun _ => 0⟩ 100 ⟨0, 10000⟩ (by decide +kernel) (by decide)
  have prepare : ClockStep c ⟨100, written⟩ .compute ⟨100, memory⟩ := Int.le_refl 100
  have request : Timespec.ofBytes (readMemory memory 0 (List.replicate 16 0)).2 = ⟨0, 5⟩ := by
    rw [readMemory_total]
    decide
  have nap : ClockStep c ⟨100, memory⟩ (.nanosleep ⟨0, 5⟩) ⟨101, memory⟩ :=
    ⟨by decide, rfl, args, _, sysClockNanosleep_eq c request,
      by norm_num [c, Timespec.nanoseconds]⟩
  have late : ClockStep c ⟨101, memory⟩ (.gettime 101 100 ⟨0, 10100⟩)
      ⟨101, (writeMemory memory 100 (timespecOf (newTime c 101)).toBytes).2⟩ := by
    refine ⟨Int.le_refl 101, rfl, args, rfl, ?_⟩
    rw [sysClockGettime_eq]
    exact congrArg (Prod.mk _) (congrArg (Prod.mk · _) (by decide +kernel))
  have front := ((Path.start.snoc early).snoc prepare).snoc nap
  have path := front.snoc late
  have laws := virtual_time_consistent (c := c) (by norm_num [c]) (by decide) (by decide) path
  have stored := gettime_holds late (mapped_total _ _ _)
  exact ⟨_, by simp, ⟨_, path, stored⟩,
    (laws.2.2 [] 100 _ _ [.compute, .nanosleep ⟨0, 5⟩] 101 _ _ [] rfl).2.2 ⟨0, 5⟩ (by simp)
      (by decide)⟩

end VirtualClock
