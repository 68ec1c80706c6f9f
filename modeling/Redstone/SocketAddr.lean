import Redstone.MachineWords

/-!
# Socket addresses

`socket_addr` is a variant of an IPv4 address and a Unix path. Equality in the
source compares ports and octets, or paths, so it is equality of the values.
-/

namespace SocketAddr

open MachineWords

/-- `port` is `sin_port` as stored, in whatever byte order the program gave it. -/
structure Ipv4Addr where
  port : U16
  octets : Vector Byte 4
  deriving DecidableEq

structure UnixAddr where
  path : List Byte
  deriving DecidableEq

inductive Addr where
  | ipv4 (addr : Ipv4Addr)
  | unix (addr : UnixAddr)
  deriving DecidableEq

/-- A value-initialised variant holds its first alternative, zeroed. -/
instance : Inhabited Addr := ⟨.ipv4 ⟨0, Vector.replicate 4 0⟩⟩

end SocketAddr
