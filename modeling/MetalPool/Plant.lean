import MetalPool.Power.Backends
/-!
# Machines to rehearse on

Machines that answer the probe as set, note every call made to them, and refuse
the calls of a backend that is set to fail. They stand in for real ones in a
run of the whole controller.
-/

namespace MetalPool

/-- What drives the machines. -/
inductive Backend where
  | wake
  | shutdown
  | bmc
deriving DecidableEq, Repr

inductive BmcOperation where
  | powerOn
  | powerOff
  | status
deriving DecidableEq, Repr

/-- The command line that does the operation, as errors name it. -/
def BmcOperation.command : BmcOperation → String
  | .powerOn => "ipmitool chassis power on"
  | .powerOff => "ipmitool chassis power off"
  | .status => "ipmitool chassis power status"

structure WakeCall where
  mac : String
  port : UInt16
  broadcastAddress : Option String
deriving DecidableEq, Repr

structure ShutdownCall where
  host : String
  user : Option String
deriving DecidableEq, Repr

structure BmcCall where
  operation : BmcOperation
  address : String
deriving DecidableEq, Repr

structure Plant where
  /-- Whether an address answers; one that is not listed does not. -/
  reachable : SortedMap Bool := .empty
  /-- Whether a management controller's machine is on; one not listed is off. -/
  powered : SortedMap Bool := .empty
  wakeFailure : Option String := none
  shutdownFailure : Option String := none
  bmcFailure : Option String := none
  /-- Addresses probed, in order. -/
  probes : List String := []
  wakes : List WakeCall := []
  shutdowns : List ShutdownCall := []
  bmcCalls : List BmcCall := []
deriving DecidableEq, Repr, Inhabited

namespace Plant

def setReachable (p : Plant) (address : String) (reachable : Bool) : Plant :=
  { p with reachable := p.reachable.insert address reachable }

/-- Has every later call of the backend fail. -/
def failWith (p : Plant) (backend : Backend) (detail : String) : Plant :=
  match backend with
  | .wake => { p with wakeFailure := some detail }
  | .shutdown => { p with shutdownFailure := some detail }
  | .bmc => { p with bmcFailure := some detail }

def isReachable (p : Plant) (address : String) : Bool := (p.reachable.get? address).getD false

/-- Whether the address answers, and the plant with the probe noted. -/
def probe (p : Plant) (address : String) : Bool × Plant :=
  (p.isReachable address, { p with probes := p.probes ++ [address] })

/-- The failure set for a backend, as a failure of `command`. -/
def refusal (failure : Option String) (command : String) : Except PowerError Unit :=
  match failure with
  | some detail => .error (.commandFailed command detail)
  | none => .ok ()

def wake (p : Plant) (mac : String) (port : UInt16) (broadcastAddress : Option String) :
    Except PowerError Unit × Plant :=
  (refusal p.wakeFailure "wake", { p with wakes := p.wakes ++ [⟨mac, port, broadcastAddress⟩] })

def shutdown (p : Plant) (host : String) (user : Option String) : Except PowerError Unit × Plant :=
  (refusal p.shutdownFailure "shutdown", { p with shutdowns := p.shutdowns ++ [⟨host, user⟩] })

def noteBmc (p : Plant) (operation : BmcOperation) (address : String) : Plant :=
  { p with bmcCalls := p.bmcCalls ++ [⟨operation, address⟩] }

/-- Switches a machine over its controller, which then remembers the state. -/
def bmcSwitch (p : Plant) (on : Bool) (address : String) : Except PowerError Unit × Plant :=
  let operation : BmcOperation := if on then .powerOn else .powerOff
  let p := p.noteBmc operation address
  match refusal p.bmcFailure operation.command with
  | .error e => (.error e, p)
  | .ok _ => (.ok (), { p with powered := p.powered.insert address on })

def bmcStatus (p : Plant) (address : String) : Except PowerError Bool × Plant :=
  ((refusal p.bmcFailure BmcOperation.status.command).map fun _ =>
      (p.powered.get? address).getD false,
    p.noteBmc .status address)

/-- Management controllers take any user and password. -/
instance : Backends Plant where
  probe := probe
  wake := wake
  shutdown := shutdown
  powerOn p address _ _ := p.bmcSwitch true address
  powerOff p address _ _ := p.bmcSwitch false address

/-- Carries out a command. -/
def execute (p : Plant) (command : PowerCommand) : Except PowerError Unit × Plant :=
  Backends.execute p command

@[simp] theorem backends_probe (p : Plant) (address : String) :
    Backends.probe p address = p.probe address := rfl

@[simp] theorem backends_execute (p : Plant) (command : PowerCommand) :
    Backends.execute p command = p.execute command := rfl

theorem execute_wake (p : Plant) (mac : String) (port : UInt16) (broadcastAddress : Option String) :
    p.execute (.wake mac port broadcastAddress) = p.wake mac port broadcastAddress := rfl

theorem execute_shutdown (p : Plant) (host : String) (user : Option String) :
    p.execute (.shutdown host user) = p.shutdown host user := rfl

theorem execute_bmcOn (p : Plant) (address username password : String) :
    p.execute (.bmcOn address username password) = p.bmcSwitch true address := rfl

theorem execute_bmcOff (p : Plant) (address username password : String) :
    p.execute (.bmcOff address username password) = p.bmcSwitch false address := rfl

/-- The calls noted since `before`. -/
def callsSince (p before : Plant) : Plant :=
  { p with
    probes := p.probes.drop before.probes.length
    wakes := p.wakes.drop before.wakes.length
    shutdowns := p.shutdowns.drop before.shutdowns.length
    bmcCalls := p.bmcCalls.drop before.bmcCalls.length }

end Plant

end MetalPool
