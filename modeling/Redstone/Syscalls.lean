import Redstone.ChildMemory
import Redstone.FaultSchedule
import Redstone.ParseAddr
import Redstone.SocketSeeds
import Redstone.TraceLoop

/-!
# The system call hooks

All replicas, the network and the simulator's generator in one state. Objects have
identities that are never reused; a descriptor table holds the only lasting shared
pointer to an object, so a closed slot destroys it. One hook runs at a time. A call that
never returns (an exception, a trap, replays without end) has no result.
-/

namespace Syscalls

open MachineWords Generators FaultSampling SocketAddr Network DatagramPipe FaultSchedule
open FdTable ParseAddr SocketSeeds TraceLoop ChildMemory StepRuns Function

structure StreamSocket where
  af : AddressFamily
  peer : Option SocketId
  listening : Bool

structure DatagramSocket where
  af : AddressFamily
  inbound : Pipe

/-- `packets_.pop()` when `p` is on top. -/
def DatagramSocket.pop (sock : DatagramSocket) (p : Packet) : DatagramSocket :=
  { sock with inbound := { sock.inbound with packets := sock.inbound.packets.erase p } }

/-- The objects behind descriptors; `plain` is one of the base class. -/
inductive Descriptor where
  | plain
  | stream (s : StreamSocket)
  | datagram (s : DatagramSocket)

namespace Descriptor

/-! `dynamic_pointer_cast`, to each of the classes the hooks cast to. -/

def isSocket : Descriptor → Bool
  | .plain => false
  | _ => true

def asStream : Descriptor → Option StreamSocket
  | .stream s => some s
  | _ => none

def asDatagram : Descriptor → Option DatagramSocket
  | .datagram s => some s
  | _ => none

/-- No class that a table can hold overrides `read` or `write`. -/
def read (_ : Descriptor) : I64 := failure 64 EINVAL

def write (_ : Descriptor) : I64 := failure 64 EINVAL

end Descriptor

structure Sim where
  rng : Xoshiro
  netFaults : FaultOptions
  net : Net
  objects : SocketId → Descriptor
  /-- Every object made so far has a smaller identity. -/
  nextObject : SocketId
  fdTables : ReplicaId → Table SocketId
  memories : ReplicaId → Memory

/-- What a call finds besides its arguments: the host, the clock, the bytes on the stack,
and a bound on the replay loop. -/
structure Surroundings where
  host : Host
  fuel : Nat
  now : I64
  stack : Stack

namespace Sim

def start (seed : U64) (netFaults : FaultOptions) (memories : ReplicaId → Memory) : Sim where
  rng := (seedFrom SplitMix.next ⟨seed, defaultGamma⟩).1
  netFaults := netFaults
  net := Network.empty
  objects := fun _ => .plain
  nextObject := 0
  fdTables := fun _ => FdTable.empty
  memories := memories

/-- The network and the pipes of all datagram sockets. -/
def world (sim : Sim) : World :=
  ⟨sim.net, fun s => (sim.objects s).asDatagram.map DatagramSocket.inbound⟩

/-- `read_memory` of a replica's runner. -/
def readMemory (sim : Sim) (r : ReplicaId) : ReadMemory := fun ptr data =>
  let (res, read) := ChildMemory.readMemory (sim.memories r) ptr data
  (res.toInt, read)

/-- `fd_table().get`. -/
def lookup (sim : Sim) (r : ReplicaId) (fd : CInt) : Option SocketId × Sim :=
  let (fildes, table) := (sim.fdTables r).get fd
  (fildes, { sim with fdTables := update sim.fdTables r table })

/-- `make_shared`. -/
def construct (sim : Sim) (d : Descriptor) : SocketId × Sim :=
  (sim.nextObject,
    { sim with
      objects := update sim.objects sim.nextObject d
      nextObject := sim.nextObject + 1 })

/-- The last shared pointer to an object goes away. -/
def release (sim : Sim) (s : SocketId) : Sim := { sim with net := sim.net.destroy s }

def setObject (sim : Sim) (s : SocketId) (d : Descriptor) : Sim :=
  { sim with objects := update sim.objects s d }

end Sim

/-- `error{e}`. -/
def failed (errno : Nat) : HookResult := .handled (failure 64 errno)

/-- `handled{v}` of an `int`. -/
def handledInt (v : CInt) : HookResult := .handled (v.signExtend 64)

def sysWrite (sim : Sim) (r : ReplicaId) (args : Args) : HookResult × Sim :=
  let fd : CInt := (args.get 0).setWidth 32
  if isSimulated fd = false then (.passthrough, sim)
  else
    let (fildes, sim) := sim.lookup r fd
    match fildes with
    | none => (failed EBADF, sim)
    | some s => (.handled (sim.objects s).write, sim)

def sysRead (sim : Sim) (r : ReplicaId) (args : Args) : HookResult × Sim :=
  let fd : CInt := (args.get 0).setWidth 32
  if isSimulated fd = false then (.passthrough, sim)
  else
    let (fildes, sim) := sim.lookup r fd
    match fildes with
    | none => (failed EBADF, sim)
    | some s => (.handled (sim.objects s).read, sim)

/-- The erased entry of the table held the object's only shared pointer. -/
def sysClose (sim : Sim) (r : ReplicaId) (args : Args) : HookResult × Sim :=
  let fd : CInt := (args.get 0).setWidth 32
  if isSimulated fd = false then (.passthrough, sim)
  else
    let table := sim.fdTables r
    let (rc, closed) := table.close fd
    let sim := { sim with fdTables := update sim.fdTables r closed }
    match table.live fd with
    | none => (handledInt rc, sim)
    | some s => (handledInt rc, sim.release s)

/-- The switch over the type. A datagram socket seeds its pipe while it is constructed. -/
def makeSocket (sim : Sim) (af : AddressFamily) (type : CInt) : Option (SocketId × Sim) :=
  if type = SOCK_STREAM then some (sim.construct (.stream ⟨af, none, false⟩))
  else if type = SOCK_DGRAM then
    let (seed, rng) := seedFrom Xoshiro.next sim.rng
    some ({ sim with rng }.construct (.datagram ⟨af, opened sim.netFaults seed⟩))
  else none

/-- An object that finds no free descriptor is destroyed again, and so is one whose slot
is assigned to. -/
def sysSocket (sim : Sim) (r : ReplicaId) (args : Args) : HookResult × Sim :=
  match family ((args.get 0).setWidth 32) with
  | none => (failed EINVAL, sim)
  | some af =>
    match makeSocket sim af ((args.get 1).setWidth 32) with
    | none => (failed EINVAL, sim)
    | some (sock, sim) =>
      let table := sim.fdTables r
      let (fd, inserted) := table.insert (some sock)
      let sim := { sim with fdTables := update sim.fdTables r inserted }
      if fd.toInt < 0 then (failed EMFILE, sim.release sock)
      else
        match table.live fd with
        | none => (handledInt fd, sim)
        | some old => (handledInt fd, sim.release old)

/-- `send_to`, called for a datagram socket of the replica. A vector refuses a length of
2^63 or more by an exception. -/
def sendTo (around : Surroundings) (sim : Sim) (r : ReplicaId) (buffer bytes : U64)
    (dst : Addr) : Option (HookResult × Sim) :=
  let (res, buf) := ChildMemory.readMemory (sim.memories r) buffer (List.replicate bytes.toNat 0)
  let readData := if res.toInt < 0 then .error res else .ok buf
  let (found, w) := sim.world.sendTo dst readData
  let sim := { sim with net := w.net }
  match found with
  | .error res => some (.handled res, sim)
  | .ok (s, buf) =>
    if 2 ^ 63 ≤ bytes.toNat then none
    else
      match (sim.objects s).asDatagram with
      | none => none
      | some sock =>
        match sock.inbound.send around.host around.fuel around.now buf default with
        | none => none
        | some (_, pipe) =>
          some (.handled bytes, sim.setObject s (.datagram { sock with inbound := pipe }))

def sysSendto (around : Surroundings) (sim : Sim) (r : ReplicaId) (args : Args) :
    Option (HookResult × Sim) :=
  let socketFd : CInt := (args.get 0).setWidth 32
  if isSimulated socketFd = false then some (.passthrough, sim)
  else
    match parseAddr (sim.readMemory r) around.stack (args.get 4) (args.get 5).toNat with
    | .error e => some (failed e, sim)
    | .ok dst =>
      let (fd, sim) := sim.lookup r socketFd
      match fd with
      | none => some (failed EBADF, sim)
      | some s =>
        match (sim.objects s).asDatagram with
        | none => some (failed ENOTSOCK, sim)
        | some _ => sendTo around sim r (args.get 1) (args.get 2) dst

def StreamSocket.connect (sock : StreamSocket) (other : SocketId) (otherAf : AddressFamily) :
    CInt × StreamSocket :=
  if sock.listening then (failure 32 EOPNOTSUPP, sock)
  else if sock.af ≠ otherAf then (failure 32 EAFNOSUPPORT, sock)
  else (0, { sock with peer := some other })

def sysConnect (around : Surroundings) (sim : Sim) (r : ReplicaId) (args : Args) :
    HookResult × Sim :=
  let sockfd : CInt := (args.get 0).setWidth 32
  if isSimulated sockfd = false then (.passthrough, sim)
  else
    match parseAddr (sim.readMemory r) around.stack (args.get 1) (args.get 2).toNat with
    | .error e => (failed e, sim)
    | .ok addr =>
      let (sock, sim) := sim.lookup r sockfd
      match sock with
      | none => (failed EBADF, sim)
      | some s =>
        if (sim.objects s).isSocket = false then (failed ENOTSOCK, sim)
        else
          let (peer, net) := sim.net.get addr
          let sim := { sim with net }
          match peer with
          | none => (failed ECONNREFUSED, sim)
          | some p =>
            match (sim.objects s).asStream with
            | none => (failed EOPNOTSUPP, sim)
            | some s2 =>
              match (sim.objects p).asStream with
              | none => (failed ECONNREFUSED, sim)
              | some peer2 =>
                if peer2.listening then (failed ECONNREFUSED, sim)
                else
                  let (rc, s2) := s2.connect p peer2.af
                  (handledInt rc, sim.setObject s (.stream s2))

def sysBind (around : Surroundings) (sim : Sim) (r : ReplicaId) (args : Args) :
    HookResult × Sim :=
  let fd : CInt := (args.get 0).setWidth 32
  if isSimulated fd = false then (.passthrough, sim)
  else
    let (sock, sim) := sim.lookup r fd
    match sock with
    | none => (failed EBADF, sim)
    | some s =>
      if (sim.objects s).isSocket = false then (failed ENOTSOCK, sim)
      else
        match parseAddr (sim.readMemory r) around.stack (args.get 1) (args.get 2).toNat with
        | .error e => (failed e, sim)
        | .ok addr =>
          let (err, net) := sim.net.bind addr s
          let sim := { sim with net }
          if err ≠ 0 then (failed err, sim) else (.handled 0, sim)

/-- `sys_recvfrom` up to `recv_from`: a result, or the socket to receive from. -/
def sysRecvfrom (sim : Sim) (r : ReplicaId) (args : Args) :
    Except HookResult (SocketId × DatagramSocket) × Sim :=
  let socketFd : CInt := (args.get 0).setWidth 32
  if isSimulated socketFd = false then (.error .passthrough, sim)
  else
    let (fd, sim) := sim.lookup r socketFd
    match fd with
    | none => (.error (failed EBADF), sim)
    | some s =>
      match (sim.objects s).asDatagram with
      | none => (.error (failed ENOTSOCK), sim)
      | some sock => (.ok (s, sock), sim)

/-- `recv_from` with the data it received. The result of the write is dropped. -/
def deliverTo (sim : Sim) (r : ReplicaId) (buffer bytes : U64) (data : List Byte) :
    HookResult × Sim :=
  let data := if bytes.toNat < data.length then data.take bytes.toNat else data
  let memory := (writeMemory (sim.memories r) buffer data).2
  (.handled (BitVec.ofNat 64 data.length),
    { sim with memories := update sim.memories r memory })

/-- A `sys_recvfrom` that receives the packet `p`. -/
def Receives (now : I64) (sim : Sim) (r : ReplicaId) (args : Args) (p : Packet)
    (result : HookResult) (after : Sim) : Prop :=
  ∃ s sock found, sysRecvfrom sim r args = (.ok (s, sock), found) ∧
    sock.inbound.IsTop p ∧ ¬now.toInt < p.arrival.toInt ∧
    (result, after) =
      deliverTo (found.setObject s (.datagram (sock.pop p))) r (args.get 1) (args.get 2) p.bytes

/-- The calls whose hooks return at once. -/
inductive Call where
  | read
  | write
  | close
  | socket
  | sendto
  | connect
  | bind
  deriving DecidableEq

def syscall (around : Surroundings) (sim : Sim) (r : ReplicaId) (args : Args) :
    Call → Option (HookResult × Sim)
  | .read => some (sysRead sim r args)
  | .write => some (sysWrite sim r args)
  | .close => some (sysClose sim r args)
  | .socket => some (sysSocket sim r args)
  | .sendto => sysSendto around sim r args
  | .connect => some (sysConnect around sim r args)
  | .bind => some (sysBind around sim r args)

inductive SysEvent where
  | call (r : ReplicaId) (call : Call) (args : Args) (result : HookResult)
  | recvfrom (r : ReplicaId) (args : Args) (p : Packet) (result : HookResult)
  | recvfromFailed (r : ReplicaId) (args : Args) (result : HookResult)
  | compute (r : ReplicaId) (memory : Memory)

/-- A hooked call of a replica returns, or a replica's program runs by itself, which may
do anything to its memory. -/
def SysStep (sim : Sim) : SysEvent → Sim → Prop
  | .call r call args result, after =>
    ∃ around, syscall around sim r args call = some (result, after)
  | .recvfrom r args p result, after => ∃ now, Receives now sim r args p result after
  | .recvfromFailed r args result, after => sysRecvfrom sim r args = (.error result, after)
  | .compute r memory, after => after = { sim with memories := update sim.memories r memory }

end Syscalls
