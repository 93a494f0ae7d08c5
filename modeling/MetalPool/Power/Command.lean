import MetalPool.Power.Error
import MetalPool.Server.Basic
/-!
# Power commands

`plan` picks the command that takes a machine to the desired state, from the
control block that the record's control type names, or says what that block
lacks.
-/

namespace MetalPool

inductive PowerCommand where
  | wake (mac : String) (port : UInt16) (broadcastAddress : Option String)
  | shutdown (host : String) (user : Option String)
  | bmcOn (address username password : String)
  | bmcOff (address username password : String)
deriving DecidableEq, Repr

namespace PowerCommand

/-- The label under which the command is counted. -/
def label : PowerCommand → String
  | .wake .. => "wake"
  | .shutdown .. => "shutdown"
  | .bmcOn .. => "bmc_on"
  | .bmcOff .. => "bmc_off"

/-- The state that the command takes a machine to. -/
def target : PowerCommand → PowerState
  | .wake .. | .bmcOn .. => .on
  | .shutdown .. | .bmcOff .. => .off

end PowerCommand

/-- What a record lacks to be driven. -/
inductive PlanError where
  | controlType
  | wolControl
  | wolMac
  | wolAddress
  | ipmiControl
  | ipmiAddress
  | ipmiCredentials
deriving DecidableEq, Repr

def PlanError.message : PlanError → String
  | .controlType => "control type is required"
  | .wolControl => "WOL config is required"
  | .wolMac => "WOL MAC address is required"
  | .wolAddress => "WOL address is required"
  | .ipmiControl => "IPMI config is required"
  | .ipmiAddress => "IPMI address is required"
  | .ipmiCredentials => "IPMI username and password are required"

/-- The command of a machine driven by Wake-on-LAN and SSH. -/
def WolControl.plan (wol : WolControl) : PowerState → Except PlanError PowerCommand
  | .on =>
    if wol.macAddress = "" then .error .wolMac
    else .ok (.wake wol.macAddress wol.port wol.broadcastAddress)
  | .off =>
    if wol.address = "" then .error .wolAddress
    else .ok (.shutdown wol.address (wol.user.filter (· ≠ "")))

/-- The command of a machine driven by its management controller. -/
def IpmiControl.plan (ipmi : IpmiControl) (desired : PowerState) :
    Except PlanError PowerCommand :=
  if ipmi.address = "" then .error .ipmiAddress
  else if ipmi.username = "" ∨ ipmi.password = "" then .error .ipmiCredentials
  else
    match desired with
    | .on => .ok (.bmcOn ipmi.address ipmi.username ipmi.password)
    | .off => .ok (.bmcOff ipmi.address ipmi.username ipmi.password)

/-- The command that takes the machine to `desired`. -/
def ServerSpec.plan (spec : ServerSpec) (desired : PowerState) : Except PlanError PowerCommand :=
  match spec.controlType with
  | none => .error .controlType
  | some .wol =>
    match spec.control.wol with
    | none => .error .wolControl
    | some wol => wol.plan desired
  | some .ipmi =>
    match spec.control.ipmi with
    | none => .error .ipmiControl
    | some ipmi => ipmi.plan desired

end MetalPool
