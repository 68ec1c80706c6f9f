import Redstone.MachineWords
import Redstone.Monitors

/-!
# The bytes of a stream socket

The buffer of a peer with its lock. Sends of all sockets connected to it and recvs on it
are the calls of a monitor. What a callback did is data of the call: its result, and for
a send the bytes it left in a buffer of the requested length.
-/

namespace StreamBytes

open MachineWords Monitors StepRuns Function

structure RecvCall where
  bytes : U64
  res : CInt
  deriving DecidableEq

inductive Call where
  | send (res : CInt) (buf : List Byte)
  | recv (call : RecvCall)

/-- The result, and the bytes given to the callback. -/
structure Returned where
  value : I64
  handed : List Byte
  deriving DecidableEq

/-- The loop that pops until `tmp` has `left` bytes more. -/
def popInto : (left : Nat) → (tmp buffer : List Byte) → List Byte × List Byte
  | 0, tmp, buffer => (tmp, buffer)
  | _ + 1, tmp, [] => (tmp, [])
  | left + 1, tmp, b :: buffer => popInto left (tmp ++ [b]) buffer

/-- The loop that pushes `buf`. -/
def pushAll (buffer buf : List Byte) : List Byte :=
  buf.foldl (fun queue byte => queue ++ [byte]) buffer

/-- The body of the loop in `recv`, up to where it waits or returns. -/
def recv (call : RecvCall) (buffer : List Byte) : Outcome (List Byte) Returned RecvCall :=
  if buffer = [] then ⟨buffer, .none, .waits call⟩
  else
    let n := min call.bytes.toNat buffer.length
    let (tmp, buffer) := popInto n [] buffer
    let value := if call.res.toInt < 0 then call.res.signExtend 64 else BitVec.ofNat 64 n
    ⟨buffer, .none, .leaves ⟨value, tmp⟩⟩

def send (res : CInt) (buf buffer : List Byte) : Outcome (List Byte) Returned RecvCall :=
  if res.toInt < 0 then ⟨buffer, .none, .leaves ⟨res.signExtend 64, []⟩⟩
  else ⟨pushAll buffer buf, .all, .leaves ⟨res.signExtend 64, []⟩⟩

def streamSocket : Program Call (List Byte) Returned RecvCall where
  enter
    | .send res buf, buffer, out => out = send res buf buffer
    | .recv call, buffer, out => out = recv call buffer
  resume call buffer out := out = recv call buffer

variable {τ : Type}

abbrev StreamEvent (τ : Type) := Event τ Call Returned RecvCall

abbrev StreamStep [DecidableEq τ] : Monitor τ (List Byte) RecvCall → StreamEvent τ →
    Monitor τ (List Byte) RecvCall → Prop := Step streamSocket

/-- The block of a send whose callback succeeds. -/
def sentBlock : StreamEvent τ → Option (List Byte)
  | .enter _ (.send res buf) _ => if res.toInt < 0 then none else some buf
  | _ => none

/-- The recv that an event completes. -/
def completed : StreamEvent τ → Option (RecvCall × Returned)
  | .enter _ (.recv call) (.leaves r) => some (call, r)
  | .resume _ call (.leaves r) => some (call, r)
  | _ => none

/-- The blocks sent, in the order in which their sends took the lock. -/
def blocks (past : List (StreamEvent τ)) : List (List Byte) := past.filterMap sentBlock

/-- All bytes handed out so far. -/
def handedOut (past : List (StreamEvent τ)) : List Byte :=
  (past.filterMap completed).flatMap fun recv => recv.2.handed

theorem popInto_eq {left : Nat} {buffer : List Byte} (tmp : List Byte)
    (enough : left ≤ buffer.length) :
    popInto left tmp buffer = (tmp ++ buffer.take left, buffer.drop left) := by
  induction left generalizing tmp buffer with
  | zero => simp [popInto]
  | succ left ih =>
    cases buffer with
    | nil => cases enough
    | cons b buffer =>
      rw [popInto, ih _ (Nat.le_of_succ_le_succ enough), List.take_succ_cons,
        List.drop_succ_cons, List.append_assoc, List.singleton_append]

theorem pushAll_eq (buffer buf : List Byte) : pushAll buffer buf = buffer ++ buf := by
  induction buf generalizing buffer with
  | nil => exact (List.append_nil buffer).symm
  | cons byte rest ih =>
    rw [pushAll, List.foldl_cons, ← pushAll, ih, List.append_assoc, List.singleton_append]

/-- A recv that finds bytes takes them off the front before it looks at the callback's
result. -/
theorem recv_taken (call : RecvCall) {buffer : List Byte} (nonempty : buffer ≠ []) :
    recv call buffer = ⟨buffer.drop (min call.bytes.toNat buffer.length), .none,
      .leaves ⟨if call.res.toInt < 0 then call.res.signExtend 64
        else BitVec.ofNat 64 (min call.bytes.toNat buffer.length),
        buffer.take (min call.bytes.toNat buffer.length)⟩⟩ := by
  simp only [recv, if_neg nonempty, popInto_eq [] (Nat.min_le_right _ _), List.nil_append]

/-- A recv waits at an empty buffer, and else takes a non-empty part off its front. -/
theorem recv_cases (call : RecvCall) (buffer : List Byte) :
    (buffer = [] ∧ recv call buffer = ⟨buffer, .none, .waits call⟩) ∨
      ∃ r rest, recv call buffer = ⟨rest, .none, .leaves r⟩ ∧ r.handed ++ rest = buffer ∧
        r.handed.length = min call.bytes.toNat buffer.length ∧ 1 ≤ buffer.length ∧
        (0 ≤ call.res.toInt → r.value = BitVec.ofNat 64 r.handed.length) := by
  by_cases empty : buffer = []
  · exact Or.inl ⟨empty, if_pos empty⟩
  · have length : (buffer.take (min call.bytes.toNat buffer.length)).length =
        min call.bytes.toNat buffer.length := by
      rw [List.length_take, Nat.min_eq_left (Nat.min_le_right _ _)]
    refine Or.inr ⟨_, _, recv_taken call empty, List.take_append_drop _ buffer, length,
      List.length_pos_iff.mpr empty, ?_⟩
    intro success
    rw [if_neg (Int.not_lt.mpr success), length]

theorem blocks_snoc (past : List (StreamEvent τ)) (e : StreamEvent τ) :
    blocks (past ++ [e]) = blocks past ++ (sentBlock e).toList :=
  filterMap_snoc sentBlock past e

theorem handedOut_snoc (past : List (StreamEvent τ)) (e : StreamEvent τ) :
    handedOut (past ++ [e]) =
      handedOut past ++ (completed e).toList.flatMap fun recv => recv.2.handed := by
  rw [handedOut, filterMap_snoc, List.flatMap_append, handedOut]

/-- What was handed out, followed by the buffer, is what was sent; and a recv of one byte
or more that was completed handed out at least one, and no more than it asked for. -/
structure InOrder (past : List (StreamEvent τ)) (m : Monitor τ (List Byte) RecvCall) :
    Prop where
  bytes : handedOut past ++ m.shared = (blocks past).flatten
  sizes : ∀ e ∈ past, ∀ call r, completed e = some (call, r) → 1 ≤ call.bytes.toNat →
    1 ≤ r.handed.length ∧ r.handed.length ≤ call.bytes.toNat ∧
      (0 ≤ call.res.toInt → r.value = BitVec.ofNat 64 r.handed.length)

/-- A section of a recv, whether it begins or goes on. -/
theorem inOrder_recv {past : List (StreamEvent τ)} {m : Monitor τ (List Byte) RecvCall}
    {call : RecvCall} {e : StreamEvent τ} {status : τ → Status RecvCall}
    (inOrder : InOrder past m) (unsent : sentBlock e = none)
    (labelled : completed e = match (recv call m.shared).next with
      | .leaves r => some (call, r)
      | .waits _ => none) :
    InOrder (past ++ [e]) ⟨(recv call m.shared).shared, status⟩ := by
  have sent : blocks (past ++ [e]) = blocks past := by
    rw [blocks_snoc, unsent, Option.toList_none, List.append_nil]
  rcases recv_cases call m.shared with ⟨_, waits⟩ |
    ⟨r, rest, leaves, whole, length, some, value⟩
  · rw [waits] at labelled ⊢
    refine ⟨?_, ?_⟩
    · rw [sent, handedOut_snoc, labelled]
      simpa using inOrder.bytes
    · refine List.forall_mem_append.mpr ⟨inOrder.sizes, List.forall_mem_singleton.mpr ?_⟩
      intro call' r' done
      rw [labelled] at done
      cases done
  · rw [leaves] at labelled ⊢
    refine ⟨?_, ?_⟩
    · rw [sent, handedOut_snoc, labelled, ← inOrder.bytes, ← whole]
      simp
    · refine List.forall_mem_append.mpr ⟨inOrder.sizes, List.forall_mem_singleton.mpr ?_⟩
      intro call' r' done asked
      rw [labelled] at done
      obtain ⟨rfl, rfl⟩ := Prod.mk.inj (Option.some.inj done)
      refine ⟨?_, ?_, value⟩
      · omega
      · omega

theorem inOrder_send {past : List (StreamEvent τ)} {m : Monitor τ (List Byte) RecvCall}
    {t : τ} {res : CInt} {buf : List Byte} {status : τ → Status RecvCall}
    (inOrder : InOrder past m) :
    InOrder (past ++ [.enter t (.send res buf) (send res buf m.shared).next])
      ⟨(send res buf m.shared).shared, status⟩ := by
  refine ⟨?_, ?_⟩
  · rw [blocks_snoc, handedOut_snoc]
    by_cases failed : res.toInt < 0
    · simpa [sentBlock, completed, send, failed] using inOrder.bytes
    · simp [sentBlock, completed, send, failed, pushAll_eq, ← inOrder.bytes]
  · refine List.forall_mem_append.mpr ⟨inOrder.sizes, List.forall_mem_singleton.mpr ?_⟩
    intro call' r' done
    cases done

variable [DecidableEq τ]

theorem inOrder_step {past : List (StreamEvent τ)} {m after : Monitor τ (List Byte) RecvCall}
    {e : StreamEvent τ} (inOrder : InOrder past m) (step : StreamStep m e after) :
    InOrder (past ++ [e]) after := by
  cases step with
  | @enter t call out status free runs notified =>
    cases call with
    | send res buf =>
      obtain rfl : out = send res buf m.shared := runs
      exact inOrder_send inOrder
    | recv call =>
      obtain rfl : out = recv call m.shared := runs
      refine inOrder_recv inOrder rfl ?_
      cases (recv call m.shared).next <;> rfl
  | @resume t call out status woken runs notified =>
    obtain rfl : out = recv call m.shared := runs
    refine inOrder_recv inOrder rfl ?_
    cases (recv call m.shared).next <;> rfl
  | wake asleep =>
    refine ⟨?_, ?_⟩
    · rw [blocks_snoc, handedOut_snoc]
      simpa [sentBlock, completed] using inOrder.bytes
    · refine List.forall_mem_append.mpr ⟨inOrder.sizes, List.forall_mem_singleton.mpr ?_⟩
      intro call' r' done
      cases done

/-- In every reachable state of a peer and all threads that send to it or receive on it,
the bytes handed out and then the buffer are the blocks sent, in the order of their
sends, and every completed recv of one byte or more made progress within its size. -/
theorem stream_in_order {past : List (StreamEvent τ)} {m : Monitor τ (List Byte) RecvCall}
    (path : Path StreamStep (idle []) past m) :
    handedOut past ++ m.shared = (blocks past).flatten ∧
      ∀ e ∈ past, ∀ call r, completed e = some (call, r) → 1 ≤ call.bytes.toNat →
        1 ≤ r.handed.length ∧ r.handed.length ≤ call.bytes.toNat ∧
          (0 ≤ call.res.toInt → r.value = BitVec.ofNat 64 r.handed.length) := by
  have start : InOrder (τ := τ) [] (idle []) := by
    refine ⟨rfl, ?_⟩
    intro e member
    cases member
  have inOrder := history_invariant InOrder start (fun _ _ _ _ => inOrder_step) path
  exact ⟨inOrder.bytes, inOrder.sizes⟩

/-- A recv waits, two blocks are sent, and the recv takes a part of the first one only. -/
theorem stream_in_order_partial :
    ∃ (past : List (StreamEvent Nat)) (m : Monitor Nat (List Byte) RecvCall),
      Path StreamStep (idle []) past m ∧ blocks past = [[1, 2, 3], [4]] ∧ handedOut past = [1, 2] ∧
        handedOut past ++ m.shared = [1, 2, 3, 4] := by
  let call : RecvCall := ⟨2, 0⟩
  let s₀ : Nat → Status RecvCall := fun _ => .outside
  let s₁ := update s₀ 0 (.asleep call)
  let s₂ := update (fun t => (s₁ t).rouse) 1 .outside
  let s₃ := update (fun t => (s₂ t).rouse) 1 .outside
  have waits : StreamStep ⟨[], s₀⟩ (.enter 0 (.recv call) (recv call []).next) ⟨[], s₁⟩ :=
    .enter rfl rfl .none
  have first : StreamStep ⟨[], s₁⟩ (.enter 1 (.send 3 [1, 2, 3]) (send 3 [1, 2, 3] []).next)
      ⟨[1, 2, 3], s₂⟩ := .enter rfl rfl .all
  have second : StreamStep ⟨[1, 2, 3], s₂⟩ (.enter 1 (.send 1 [4]) (send 1 [4] [1, 2, 3]).next)
      ⟨[1, 2, 3, 4], s₃⟩ := .enter rfl rfl .all
  have takes : StreamStep ⟨[1, 2, 3, 4], s₃⟩
      (.resume 0 call (recv call [1, 2, 3, 4]).next) ⟨[3, 4], update s₃ 0 .outside⟩ :=
    .resume rfl rfl .none
  have path := (((Path.start.snoc waits).snoc first).snoc second).snoc takes
  exact ⟨_, _, path, rfl, rfl, (stream_in_order path).1⟩

end StreamBytes
