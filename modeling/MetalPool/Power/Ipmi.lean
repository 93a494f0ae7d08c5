import MetalPool.Power.Tool
/-!
# Management controllers

Machines with a management controller are switched and asked for their power
over IPMI. The password goes into the environment of the tool, never into its
command line.
-/

namespace MetalPool

inductive ChassisAction where
  | on
  | off
  | status
deriving DecidableEq, Repr

def ChassisAction.name : ChassisAction → String
  | .on => "on"
  | .off => "off"
  | .status => "status"

structure IpmiClient where
  program : String
  timeout : Span
deriving DecidableEq, Repr

namespace IpmiClient

def invocation (c : IpmiClient) (address username password : String) (action : ChassisAction) :
    Invocation where
  program := c.program
  arguments :=
    ["-I", "lanplus", "-H", address, "-U", username, "-E", "chassis", "power", action.name]
  environment := [("IPMI_PASSWORD", password)]

/-- The standard output of the tool for an action. -/
def perform (c : IpmiClient) (address username password : String) (action : ChassisAction)
    (t : Toolbox) : Except PowerError String × Toolbox :=
  let (ending, t) := t.run (c.invocation address username password action)
  ((ending.output c.timeout).bind fun o =>
      if o.succeeded then .ok o.stdoutText else .error (o.failure c.program), t)

def powerOn (c : IpmiClient) (address username password : String) (t : Toolbox) :
    Except PowerError Unit × Toolbox :=
  let (result, t) := c.perform address username password .on t
  (result.map fun _ => (), t)

def powerOff (c : IpmiClient) (address username password : String) (t : Toolbox) :
    Except PowerError Unit × Toolbox :=
  let (result, t) := c.perform address username password .off t
  (result.map fun _ => (), t)

/-- What follows the last space of the text. -/
def lastWord (s : String) : String :=
  .ofList (s.toList.reverse.takeWhile (· ≠ ' ')).reverse

/-- The state that the tool's report ends in. -/
def readStatus (stdout : String) : Except PowerError Bool :=
  let report := Text.trim stdout
  let word := lastWord report.toLower
  if word = "on" then .ok true
  else if word = "off" then .ok false
  else .error (.commandFailed "ipmitool chassis power status" ("unexpected output: " ++ report))

def powerStatus (c : IpmiClient) (address username password : String) (t : Toolbox) :
    Except PowerError Bool × Toolbox :=
  let (result, t) := c.perform address username password .status t
  (result.bind readStatus, t)

end IpmiClient

end MetalPool
