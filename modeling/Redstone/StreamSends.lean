import Redstone.FragmentCallbacks
import Redstone.StreamBytes
import Redstone.Syscalls

/-!
# Sends between stream sockets

Any number of sockets, with their buffers. A socket holds a weak pointer to its peer, which
locks to nothing before the first connect and after the peer is gone; `send` uses it either
way. Sockets have identities that are never reused.
-/

namespace StreamSends

open MachineWords Network ChildMemory FragmentCallbacks Function
open SocketSeeds (AddressFamily)
open StreamBytes (pushAll pushAll_eq)
open Syscalls (StreamSocket StreamSocket.connect)

structure Endpoint where
  socket : StreamSocket
  buffer : List Byte

/-- The sockets that exist; those made so far have smaller identities than `next`. -/
structure Sockets where
  endpoints : SocketId → Option Endpoint
  next : SocketId

namespace Sockets

def empty : Sockets := ⟨fun _ => none, 0⟩

/-- `make_shared<stream_socket>(af)`. -/
def make (w : Sockets) (af : AddressFamily) : Sockets :=
  ⟨update w.endpoints w.next (some ⟨⟨af, none, false⟩, []⟩), w.next + 1⟩

/-- The last shared pointer to a socket goes away. -/
def destroy (w : Sockets) (s : SocketId) : Sockets :=
  { w with endpoints := update w.endpoints s none }

/-- `connect`, called for a socket that exists with another one that does. -/
def connect (w : Sockets) (s other : SocketId) : Option (CInt × Sockets) :=
  match w.endpoints s, w.endpoints other with
  | some caller, some callee =>
    let (rc, socket) := caller.socket.connect other callee.socket.af
    some (rc, { w with endpoints := update w.endpoints s (some { caller with socket }) })
  | _, _ => none

/-- `peer_.lock()`: the peer, if the pointer is set and its socket exists. -/
def lock (w : Sockets) (peer : Option SocketId) : Option (SocketId × Endpoint) :=
  peer.bind fun p => (w.endpoints p).map (Prod.mk p)

def buffer (w : Sockets) (s : SocketId) : Option (List Byte) := (w.endpoints s).map Endpoint.buffer

end Sockets

/-- How a send ends: a null pointer is dereferenced, the vector refuses its length by an
exception, or it returns. -/
inductive SendOutcome where
  | nullPeer
  | refused
  | returned (value : I64) (after : Sockets)

/-- `send` of the socket `sock`, with a callback that fills its span. -/
def send (readData : List Byte → CInt × List Byte) (w : Sockets) (sock : StreamSocket)
    (bytes : U64) : SendOutcome :=
  match w.lock sock.peer with
  | none => .nullPeer
  | some (p, peer) =>
    if 2 ^ 63 ≤ bytes.toNat then .refused
    else
      let (res, buf) := readData (List.replicate bytes.toNat 0)
      if res.toInt < 0 then .returned (res.signExtend 64) w
      else
        let peer := { peer with buffer := pushAll peer.buffer buf }
        .returned (res.signExtend 64) { w with endpoints := update w.endpoints p (some peer) }

/-- The callback that the hooks supply. -/
def hookCallback (memory : Memory) (addr : U64) (fragment : List Byte) : CInt × List Byte :=
  let (res, filled, _) := storeFragment memory addr fragment
  (res, filled)

/-- The send returns `bytes` and has appended as many bytes, those its callback read, to
the peer's buffer and nothing to any other, or it returns a negative error and no buffer
changed. -/
def Acknowledges (memory : Memory) (addr : U64) (w : Sockets) (sock : StreamSocket)
    (bytes : U64) : Prop :=
  ∃ value after, send (hookCallback memory addr) w sock bytes = .returned value after ∧
    ((value.toInt = bytes.toNat ∧ ∃ p peer, w.lock sock.peer = some (p, peer) ∧
        ∃ data : List Byte, data.length = bytes.toNat ∧
          data = (readMemory memory addr (List.replicate bytes.toNat 0)).2 ∧
          after.buffer p = some (peer.buffer ++ data) ∧
          ∀ q, q ≠ p → after.buffer q = w.buffer q) ∨
      (value.toInt < 0 ∧ after.buffer = w.buffer))

theorem hookCallback_eq (memory : Memory) (addr : U64) (fragment : List Byte) :
    hookCallback memory addr fragment = (0, (readMemory memory addr fragment).2) := by
  rw [hookCallback, storeFragment_eq]

theorem readMemory_nil (memory : Memory) (addr : U64) : readMemory memory addr [] = (0, []) := by
  rw [readMemory]
  simp

/-- The callback never fails, so a send that returns has returned zero. -/
theorem send_cases (memory : Memory) (addr : U64) (w : Sockets) (sock : StreamSocket)
    (bytes : U64) :
    (w.lock sock.peer = none ∧ send (hookCallback memory addr) w sock bytes = .nullPeer) ∨
      ∃ p peer, w.lock sock.peer = some (p, peer) ∧
        ((2 ^ 63 ≤ bytes.toNat ∧ send (hookCallback memory addr) w sock bytes = .refused) ∨
          send (hookCallback memory addr) w sock bytes = .returned 0
            { w with endpoints := update w.endpoints p (some { peer with
              buffer := peer.buffer ++
                (readMemory memory addr (List.replicate bytes.toNat 0)).2 }) }) := by
  cases locked : w.lock sock.peer with
  | none =>
    refine Or.inl ⟨rfl, ?_⟩
    simp only [send, locked]
  | some pair =>
    obtain ⟨p, peer⟩ := pair
    refine Or.inr ⟨p, peer, rfl, ?_⟩
    by_cases long : 2 ^ 63 ≤ bytes.toNat
    · refine Or.inl ⟨long, ?_⟩
      simp only [send, locked, if_pos long]
    · refine Or.inr ?_
      simp only [send, locked, if_neg long, hookCallback_eq, pushAll_eq]
      rfl

theorem not_acknowledges_of_unlocked {memory : Memory} {addr : U64} {w : Sockets}
    {sock : StreamSocket} {bytes : U64} (locked : w.lock sock.peer = none) :
    ¬Acknowledges memory addr w sock bytes := by
  rintro ⟨value, after, ended, -⟩
  simp only [send, locked] at ended
  cases ended

/-- What a send returns is zero, so it acknowledges nothing else. -/
theorem zero_of_acknowledges {memory : Memory} {addr : U64} {w : Sockets} {sock : StreamSocket}
    {bytes : U64} (acknowledges : Acknowledges memory addr w sock bytes) : bytes = 0 := by
  obtain ⟨value, after, ended, acknowledged⟩ := acknowledges
  have none : (0 : I64).toInt = 0 := rfl
  rcases send_cases memory addr w sock bytes with ⟨-, null⟩ |
    ⟨p, peer, -, ⟨-, refused⟩ | returned⟩
  · rw [null] at ended
    cases ended
  · rw [refused] at ended
    cases ended
  · rw [returned] at ended
    obtain ⟨rfl, -⟩ := SendOutcome.returned.inj ended
    rcases acknowledged with ⟨count, -⟩ | ⟨negative, -⟩
    · apply BitVec.eq_of_toNat_eq
      rw [none] at count
      exact (Int.ofNat.inj count).symm
    · exact absurd negative (by decide)

theorem acknowledges_nothing {memory : Memory} {addr : U64} {w : Sockets} {sock : StreamSocket}
    (live : (w.lock sock.peer).isSome) : Acknowledges memory addr w sock 0 := by
  have read : (readMemory memory addr (List.replicate (0 : U64).toNat 0)).2 = [] :=
    congrArg Prod.snd (readMemory_nil memory addr)
  rcases send_cases memory addr w sock 0 with ⟨gone, -⟩ |
    ⟨p, peer, locked, ⟨long, -⟩ | returned⟩
  · rw [gone] at live
    cases live
  · exact absurd long (by decide)
  · refine ⟨0, _, returned, Or.inl ⟨rfl, p, peer, locked, [], rfl, read.symm, ?_, ?_⟩⟩
    · simp only [Sockets.buffer, update_self, Option.map_some, read]
    · intro q other
      simp only [Sockets.buffer, update_of_ne other]

/-- For every state of all sockets, every number of bytes and every memory and address of
the callback: a send acknowledges what it queued exactly if its peer is set and exists and
no bytes are sent. -/
theorem send_acknowledges_iff (memory : Memory) (addr : U64) (w : Sockets) (sock : StreamSocket)
    (bytes : U64) :
    Acknowledges memory addr w sock bytes ↔ (w.lock sock.peer).isSome ∧ bytes = 0 := by
  constructor
  · intro acknowledges
    refine ⟨?_, zero_of_acknowledges acknowledges⟩
    by_contra unset
    rw [Bool.not_eq_true, Option.isSome_eq_false_iff, Option.isNone_iff_eq_none] at unset
    exact not_acknowledges_of_unlocked unset acknowledges
  · rintro ⟨live, rfl⟩
    exact acknowledges_nothing live

/-- One byte sent by a socket that was never connected, by one that is connected, and by
one whose peer is gone again. -/
theorem one_byte_unacknowledged :
    ∃ w rc connected socket, w = (Sockets.empty.make .unix).make .unix ∧
      w.connect 0 1 = some (rc, connected) ∧ connected.endpoints 0 = some ⟨socket, []⟩ ∧
      ¬Acknowledges (total fun _ => 7) 0 w ⟨.unix, none, false⟩ 1 ∧
      ¬Acknowledges (total fun _ => 7) 0 connected socket 1 ∧
      ¬Acknowledges (total fun _ => 7) 0 (connected.destroy 1) socket 1 := by
  refine ⟨_, 0, _, ⟨.unix, some 1, false⟩, rfl, rfl, rfl, ?_, ?_, ?_⟩
  · exact not_acknowledges_of_unlocked rfl
  · intro acknowledges
    exact absurd (zero_of_acknowledges acknowledges) (by decide)
  · exact not_acknowledges_of_unlocked rfl

end StreamSends
