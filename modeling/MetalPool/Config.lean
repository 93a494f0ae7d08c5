import MetalPool.Controller.Error
import MetalPool.Lifecycle
import MetalPool.Pool.Listener
import MetalPool.Text.Decimal
/-!
# Configuration

What the controller reads from its environment. A variable set to nothing counts
as not set. Variables are checked in a fixed order and the first that cannot be
used is the one reported.
-/

namespace MetalPool

/-- Why the environment gives no configuration. -/
inductive ConfigError where
  | listener (error : ListenerError)
  | number (name value : String) (error : Text.NumberError)
  | zero (name : String)
  | address (name value : String)
deriving DecidableEq, Repr

def ConfigError.message : ConfigError → String
  | .listener error => error.toPoolError.message
  | .number name value error => name ++ "=" ++ value ++ ": " ++ error.message
  | .zero name => name ++ " must be greater than zero"
  | .address name value => name ++ "=" ++ value ++ ": " ++ SocketAddress.syntaxMessage

def ConfigError.toControllerError (e : ConfigError) : ControllerError := .invalidConfig e.message

structure Config where
  listener : Listener
  /-- When a machine in transition is looked at again. -/
  requeueInterval : Span
  /-- When a settled machine is looked at again. -/
  resyncInterval : Span
  failureThreshold : UInt32
  wakePort : UInt16
  wakeBroadcast : String
  sshUser : String
  sshKeyPath : Option String
  sshTimeout : Span
  ipmitoolPath : String
  ipmiTimeout : Span
  metricsAddress : SocketAddress
deriving DecidableEq, Repr

def defaultBroadcastAddress : String := "255.255.255.255"

namespace Config

def uint16Max : Nat := 65535
def uint32Max : Nat := 4294967295
def uint64Max : Nat := 18446744073709551615

/-- Values of variables by name. -/
abbrev Lookup := String → Option String

/-- The value of a variable that is set to something. -/
def value? (lookup : Lookup) (name : String) : Option String := (lookup name).filter (· ≠ "")

def text (lookup : Lookup) (name default : String) : String := (value? lookup name).getD default

/-- A number up to `max`. -/
def number (lookup : Lookup) (name : String) (max default : Nat) : Except ConfigError Nat :=
  match value? lookup name with
  | none => .ok default
  | some value => (Text.readNumber max value).mapError (.number name value)

/-- A number from 1 up to `max`. -/
def positive (lookup : Lookup) (name : String) (max default : Nat) : Except ConfigError Nat := do
  let n ← number lookup name max default
  if n = 0 then .error (.zero name) else return n

def address (lookup : Lookup) (name default : String) : Except ConfigError SocketAddress :=
  let value := text lookup name default
  match SocketAddress.parse? value with
  | some a => .ok a
  | none => .error (.address name value)

def listenerOf (lookup : Lookup) : Listener where
  address := text lookup "GRPC_ADDRESS" defaultListenAddress
  cert := value? lookup "GRPC_TLS_CERT"
  key := value? lookup "GRPC_TLS_KEY"
  ca := value? lookup "GRPC_TLS_CA"

/-- The configuration that the environment gives. -/
def ofLookup (lookup : Lookup) : Except ConfigError Config := do
  let listener := listenerOf lookup
  let _ ← listener.validate.mapError .listener
  let requeue ← positive lookup "REQUEUE_INTERVAL_SECS" uint64Max 60
  let resync ← positive lookup "RESYNC_INTERVAL_SECS" uint64Max 300
  let threshold ← positive lookup "FAILURE_THRESHOLD" uint32Max defaultFailureThreshold.toNat
  let wakePort ← number lookup "WOL_DEFAULT_PORT" uint16Max defaultWakePort.toNat
  let sshTimeout ← number lookup "SSH_TIMEOUT_SECS" uint64Max 10
  let ipmiTimeout ← number lookup "IPMI_TIMEOUT_SECS" uint64Max 20
  let metricsAddress ← address lookup "METRICS_ADDRESS" "0.0.0.0:8080"
  return {
    listener := listener
    requeueInterval := .ofSeconds requeue
    resyncInterval := .ofSeconds resync
    failureThreshold := UInt32.ofNat threshold
    wakePort := UInt16.ofNat wakePort
    wakeBroadcast := text lookup "WOL_BROADCAST_ADDRESS" defaultBroadcastAddress
    sshUser := text lookup "SSH_USER" "root"
    sshKeyPath := value? lookup "SSH_KEY_PATH"
    sshTimeout := .ofSeconds sshTimeout
    ipmitoolPath := text lookup "IPMITOOL_PATH" "ipmitool"
    ipmiTimeout := .ofSeconds ipmiTimeout
    metricsAddress := metricsAddress }

end Config

end MetalPool
