import MetalPool.Power.Error
import MetalPool.Power.Mac
import MetalPool.SocketAddress
/-!
# Waking machines

A machine in standby is woken by one UDP datagram to a broadcast address. The
sender's own port and broadcast address stand in where a machine names none.
-/

namespace MetalPool

/-- One UDP datagram to a host by name or address. -/
structure Datagram where
  host : String
  port : UInt16
  payload : Bytes
deriving DecidableEq, Repr

/-- Why an IPv4 socket finds no destination. -/
inductive ResolveError where
  | otherFamily
  | unknownName
deriving DecidableEq, Repr

def ResolveError.message : ResolveError → String
  | .otherFamily => "Address family not supported by protocol (os error 97)"
  | .unknownName => "failed to lookup address information: Name or service not known"

/-- The IPv4 address of a host. -/
abbrev Resolver := String → Except ResolveError Ipv4

/-- Addresses are themselves, and no name is known. -/
def Resolver.numeric : Resolver := fun host =>
  match IpAddress.parse? host with
  | some (.v4 ip) => .ok ip
  | some (.v6 _) => .error .otherFamily
  | none => .error .unknownName

structure WakeSender where
  defaultPort : UInt16
  defaultBroadcast : String
deriving DecidableEq, Repr

namespace WakeSender

/-- The datagram that wakes the machine. Port 0 and an empty address are not named. -/
def datagram (s : WakeSender) (mac : MacAddress) (port : UInt16) (broadcast : Option String) :
    Datagram where
  host := (broadcast.filter (· ≠ "")).getD s.defaultBroadcast
  port := if port = 0 then s.defaultPort else port
  payload := mac.magicPacket

/-- Whether the machine was sent for, and the datagrams sent, each with its destination. -/
def wake (s : WakeSender) (resolve : Resolver) (mac : String) (port : UInt16)
    (broadcast : Option String) : Except PowerError Unit × List (SocketAddress × Bytes) :=
  match MacAddress.parse? mac with
  | none => (.error (.invalidMac mac), [])
  | some address =>
    let d := s.datagram address port broadcast
    match resolve d.host with
    | .error e => (.error (.io e.message), [])
    | .ok ip => (.ok (), [(.v4 ip d.port, d.payload)])

end WakeSender

end MetalPool
