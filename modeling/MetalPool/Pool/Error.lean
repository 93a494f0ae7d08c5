import MetalPool.Store.Error
import MetalPool.Text.Percent
/-!
# Refusals of the pool

Why a call on the pool fails, and the status that a remote caller gets for it.
-/

namespace MetalPool

inductive PoolError where
  | unknownNodeGroup (id : String)
  | unknownNode (name : String)
  /-- Fewer machines were free than asked for. -/
  | insufficientCapacity (requested provisioned : Nat)
  | invalidArgument (text : String)
  | store (error : StoreError)
  /-- The endpoint could not be set up. -/
  | transport
  | configuration (text : String)
deriving DecidableEq, Repr

def PoolError.message : PoolError → String
  | .unknownNodeGroup id => "Unknown node group: " ++ id
  | .unknownNode name => "Unknown node: " ++ name
  | .insufficientCapacity requested provisioned =>
    "Could not provision enough servers: requested " ++ requested.repr ++ ", provisioned " ++
      provisioned.repr
  | .invalidArgument text => "Invalid argument: " ++ text
  | .store error => "Store error: " ++ error.message
  | .transport => "Transport error: transport error"
  | .configuration text => "Configuration error: " ++ text

inductive RpcCode where
  | unknown
  | invalidArgument
  | notFound
  | resourceExhausted
  | aborted
  | outOfRange
  | unimplemented
  | internal
deriving DecidableEq, Repr

def RpcCode.number : RpcCode → Nat
  | .unknown => 2
  | .invalidArgument => 3
  | .notFound => 5
  | .resourceExhausted => 8
  | .aborted => 10
  | .outOfRange => 11
  | .unimplemented => 12
  | .internal => 13

def RpcCode.name : RpcCode → String
  | .unknown => "Unknown"
  | .invalidArgument => "InvalidArgument"
  | .notFound => "NotFound"
  | .resourceExhausted => "ResourceExhausted"
  | .aborted => "Aborted"
  | .outOfRange => "OutOfRange"
  | .unimplemented => "Unimplemented"
  | .internal => "Internal"

structure RpcStatus where
  code : RpcCode
  message : String
deriving DecidableEq, Repr

def PoolError.code : PoolError → RpcCode
  | .unknownNodeGroup _ | .unknownNode _ | .store (.notFound _) => .notFound
  | .insufficientCapacity .. => .resourceExhausted
  | .invalidArgument _ => .invalidArgument
  | .store (.conflict _) => .aborted
  | .store (.api _) | .transport | .configuration _ => .internal

def PoolError.toStatus (e : PoolError) : RpcStatus := ⟨e.code, e.message⟩

/-- The status as its caller reads it. The message travels percent-encoded, but
without its own `%` being encoded: where it looks like an encoded byte it is read
as that byte, and where the bytes read are no text the status is lost. -/
def RpcStatus.received (s : RpcStatus) : RpcStatus :=
  match Bytes.readUtf8 (Bytes.ofText s.message).percentDecode with
  | .ok message => { s with message }
  | .error fault => ⟨.unknown, "Error deserializing status message header: " ++ fault.message⟩

end MetalPool
