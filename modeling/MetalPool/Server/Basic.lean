import MetalPool.SortedMap
import MetalPool.Timestamp.Basic
/-!
# Server records

One record for each physical machine. Its `spec` says whether the machine should
be on and how it is driven; its `status` says what was last seen of it.
-/

namespace MetalPool

inductive PowerState where
  | on
  | off
deriving DecidableEq, Repr, Inhabited

def PowerState.name : PowerState → String
  | .on => "on"
  | .off => "off"

/-- How a machine is driven. -/
inductive ControlType where
  /-- Wake-on-LAN to power on, SSH to shut down. -/
  | wol
  /-- A baseboard management controller, over IPMI. -/
  | ipmi
deriving DecidableEq, Repr

def ControlType.name : ControlType → String
  | .wol => "wol"
  | .ipmi => "ipmi"

/-- Where a machine stands between off and on. -/
inductive Phase where
  /-- Powered on, not yet reachable. -/
  | pending
  /-- Reachable. -/
  | active
  /-- Not reachable. -/
  | offline
  /-- Shut down, still reachable. -/
  | draining
  /-- Given up until an operator resets it. -/
  | failed
deriving DecidableEq, Repr

def Phase.name : Phase → String
  | .pending => "pending"
  | .active => "active"
  | .offline => "offline"
  | .draining => "draining"
  | .failed => "failed"

structure IpmiControl where
  /-- Address of the controller, which is also the one probed. -/
  address : String := ""
  username : String := ""
  password : String := ""
deriving DecidableEq, Repr, Inhabited

/-- The UDP port a magic packet goes to unless another is given. -/
def defaultWakePort : UInt16 := 9

structure WolControl where
  /-- Address of the machine, probed and shut down over SSH. -/
  address : String := ""
  macAddress : String := ""
  port : UInt16 := defaultWakePort
  /-- Where the magic packet goes, if not where the sender's default says. -/
  broadcastAddress : Option String := none
  /-- Who shuts the machine down, if not the default user. -/
  user : Option String := none
deriving DecidableEq, Repr, Inhabited

/-- The parameters of each way to drive a machine. -/
structure Control where
  ipmi : Option IpmiControl := none
  wol : Option WolControl := none
deriving DecidableEq, Repr, Inhabited

structure ServerSpec where
  /-- The desired state; off if unset. -/
  powerState : Option PowerState := none
  controlType : Option ControlType := none
  control : Control := {}
deriving DecidableEq, Repr, Inhabited

structure ServerStatus where
  /-- Unset until the machine was first seen. -/
  phase : Option Phase := none
  /-- Why the machine failed, or nothing. -/
  message : String := ""
  /-- The first failure of the current streak. -/
  failingSince : Option Timestamp := none
  /-- Failures in the current streak. -/
  failureCount : UInt32 := 0
deriving DecidableEq, Repr, Inhabited

structure Metadata where
  name : Option String := none
  generation : Option Int64 := none
  labels : Option (SortedMap String) := none
  resourceVersion : Option String := none
deriving DecidableEq, Repr, Inhabited

structure Server where
  metadata : Metadata := {}
  spec : ServerSpec := {}
  status : Option ServerStatus := none
deriving DecidableEq, Repr, Inhabited

/-- The desired power state. -/
def ServerSpec.desired (spec : ServerSpec) : PowerState := spec.powerState.getD .off

/-- The address that the way to drive the machine gives, if it gives one. -/
def ServerSpec.address? (spec : ServerSpec) : Option String :=
  let address : Option String :=
    match spec.controlType with
    | none => none
    | some .wol => spec.control.wol.map (·.address)
    | some .ipmi => spec.control.ipmi.map (·.address)
  address.filter (· ≠ "")

/-- The power state that the phase implies. -/
def ServerStatus.current (status : ServerStatus) : PowerState :=
  match status.phase with
  | some .active | some .pending => .on
  | _ => .off

/-- The label that names a machine's kind of GPU. -/
def gpuTypeLabel : String := "gpu-type"

namespace Server

/-- The record's name, empty if it has none. -/
def name (s : Server) : String := s.metadata.name.getD ""

def version? (s : Server) : Option String := s.metadata.resourceVersion

/-- The status, or that of a machine never seen. -/
def statusOrDefault (s : Server) : ServerStatus := s.status.getD {}

def gpuType? (s : Server) : Option String := s.metadata.labels.bind (·.get? gpuTypeLabel)

/-- The record at another version. -/
def withVersion (s : Server) (version : String) : Server :=
  { s with metadata := { s.metadata with resourceVersion := some version } }

def withPowerState (s : Server) (state : PowerState) : Server :=
  { s with spec := { s.spec with powerState := some state } }

def withStatus (s : Server) (status : ServerStatus) : Server := { s with status := some status }

end Server

end MetalPool
