import MetalPool.Pool.Error
import MetalPool.SocketAddress
import MetalPool.Text.Bytes
/-!
# Where the pool is served

The address and the optional TLS material of the endpoint for the autoscaler,
the checks on them, and what the machine it runs on has to give.
-/

namespace MetalPool

/-- Why the endpoint's options are refused. -/
inductive ListenerError where
  | addressMissing
  | addressInvalid (address : String)
  /-- Some but not all of the three files are named. -/
  | partialTls
  | unreadable (path reason : String)
deriving DecidableEq, Repr

def ListenerError.message : ListenerError → String
  | .addressMissing => "address is required"
  | .addressInvalid address =>
    "invalid address " ++ address ++ ": " ++ SocketAddress.syntaxMessage
  | .partialTls => "all TLS options (cert, key, ca) must be set together, or none"
  | .unreadable path reason => "failed to read " ++ path ++ ": " ++ reason

def ListenerError.toPoolError (e : ListenerError) : PoolError := .configuration e.message

def defaultListenAddress : String := "0.0.0.0:8086"

structure Listener where
  address : String := defaultListenAddress
  cert : Option String := none
  key : Option String := none
  ca : Option String := none
deriving DecidableEq, Repr, Inhabited

/-- What the machine that serves has: files, addresses to listen at, and the
judgement whether a certificate, a key and an authority go together. -/
structure Host where
  contents : String → Except String Bytes
  canListen : SocketAddress → Bool
  acceptsTls : (cert key ca : Bytes) → Bool

namespace Listener

/-- All three files are named. -/
def usesTls (l : Listener) : Bool := l.cert.isSome && l.key.isSome && l.ca.isSome

/-- No file is named. -/
def isPlain (l : Listener) : Bool := l.cert.isNone && l.key.isNone && l.ca.isNone

/-- The address to listen at, if address and files are usable as given. -/
def validate (l : Listener) : Except ListenerError SocketAddress :=
  if l.address = "" then .error .addressMissing
  else
    match SocketAddress.parse? l.address with
    | none => .error (.addressInvalid l.address)
    | some address => if l.usesTls ∨ l.isPlain then .ok address else .error .partialTls

def read (host : Host) (path : String) : Except ListenerError Bytes :=
  (host.contents path).mapError (.unreadable path)

/-- The contents of the three files, if they are named. -/
def tlsMaterial (l : Listener) (host : Host) :
    Except ListenerError (Option (Bytes × Bytes × Bytes)) :=
  match l.cert, l.key, l.ca with
  | some cert, some key, some ca => do
    let cert ← read host cert
    let key ← read host key
    let ca ← read host ca
    return some (cert, key, ca)
  | _, _, _ => .ok none

/-- Serves until told to stop. -/
def serve (l : Listener) (host : Host) : Except PoolError Unit := do
  let address ← l.validate.mapError (·.toPoolError)
  let material ← (l.tlsMaterial host).mapError (·.toPoolError)
  if material.any fun (cert, key, ca) => !host.acceptsTls cert key ca then throw .transport
  if host.canListen address then return else throw .transport

end Listener

end MetalPool
