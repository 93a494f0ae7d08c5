import MetalPool.Pool.Scaling
import MetalPool.Target
import MetalPool.Wire.Messages
/-!
# The autoscaler's calls

The methods that the autoscaler may call, with the types of their requests and
responses. `handle` answers a request, `serveBytes` one that is still in bytes:
it decodes the request, answers it and writes the response. A request that is too
long is refused before it is decoded.
-/

namespace MetalPool

inductive RpcMethod where
  | nodeGroups
  | nodeGroupForNode
  | gpuLabel
  | availableGpuTypes
  | cleanup
  | refresh
  | targetSize
  | increaseSize
  | deleteNodes
  | decreaseTargetSize
  | nodes
deriving DecidableEq, Repr

namespace RpcMethod

/-- The method's name in the protocol. -/
def name : RpcMethod → String
  | .nodeGroups => "NodeGroups"
  | .nodeGroupForNode => "NodeGroupForNode"
  | .gpuLabel => "GPULabel"
  | .availableGpuTypes => "GetAvailableGPUTypes"
  | .cleanup => "Cleanup"
  | .refresh => "Refresh"
  | .targetSize => "NodeGroupTargetSize"
  | .increaseSize => "NodeGroupIncreaseSize"
  | .deleteNodes => "NodeGroupDeleteNodes"
  | .decreaseTargetSize => "NodeGroupDecreaseTargetSize"
  | .nodes => "NodeGroupNodes"

def all : List RpcMethod :=
  [.nodeGroups, .nodeGroupForNode, .gpuLabel, .availableGpuTypes, .cleanup, .refresh, .targetSize,
    .increaseSize, .deleteNodes, .decreaseTargetSize, .nodes]

def ofName? (name : String) : Option RpcMethod := all.find? (·.name == name)

def servicePath : String := "/clusterautoscaler.cloudprovider.v1.externalgrpc.CloudProvider/"

def path (m : RpcMethod) : String := servicePath ++ m.name

def ofPath? (path : String) : Option RpcMethod := all.find? (·.path == path)

/-- The method at the path of a target. -/
def ofTarget? (target : String) : Option RpcMethod := ofPath? (Target.ofText target).path

def Request : RpcMethod → Type
  | .nodeGroupForNode => NodeGroupForNodeRequest
  | .targetSize | .nodes => GroupRequest
  | .increaseSize | .decreaseTargetSize => ResizeRequest
  | .deleteNodes => DeleteNodesRequest
  | _ => NoFields

def Response : RpcMethod → Type
  | .nodeGroups => NodeGroupsResponse
  | .nodeGroupForNode => NodeGroupForNodeResponse
  | .gpuLabel => GpuLabelResponse
  | .availableGpuTypes => GpuTypesResponse
  | .targetSize => TargetSizeResponse
  | .nodes => InstancesResponse
  | _ => NoFields

def requestCodec : (m : RpcMethod) → Wire.Codec m.Request
  | .nodeGroupForNode => NodeGroupForNodeRequest.codec
  | .targetSize | .nodes => GroupRequest.codec
  | .increaseSize | .decreaseTargetSize => ResizeRequest.codec
  | .deleteNodes => DeleteNodesRequest.codec
  | .nodeGroups | .gpuLabel | .availableGpuTypes | .cleanup | .refresh => NoFields.codec

def responseCodec : (m : RpcMethod) → Wire.Codec m.Response
  | .nodeGroups => NodeGroupsResponse.codec
  | .nodeGroupForNode => NodeGroupForNodeResponse.codec
  | .gpuLabel => GpuLabelResponse.codec
  | .availableGpuTypes => GpuTypesResponse.codec
  | .targetSize => TargetSizeResponse.codec
  | .nodes => InstancesResponse.codec
  | .increaseSize | .deleteNodes | .decreaseTargetSize | .cleanup | .refresh => NoFields.codec

end RpcMethod

namespace Pool

/-- The response to a request, or why there is none. -/
def handle : (m : RpcMethod) → m.Request → PoolSession m.Response
  | .nodeGroups, _ => do return NodeGroupsResponse.mk (← groups)
  | .nodeGroupForNode, request => do return NodeGroupForNodeResponse.mk (← groupFor request.node)
  | .gpuLabel, _ => return GpuLabelResponse.mk gpuNodeLabel
  | .availableGpuTypes, _ => do
    let counts ← gpuTypeCounts
    return GpuTypesResponse.mk (counts.map fun n => PackedMessage.ofInt64 (Int64.ofNat n))
  | .cleanup, _ => return NoFields.mk
  | .refresh, _ => return NoFields.mk
  | .targetSize, request => do return TargetSizeResponse.mk (size (← targetSize request.id))
  | .increaseSize, request => do
    increaseSize request.id request.delta
    return NoFields.mk
  | .deleteNodes, request => do
    deleteNodes request.id request.nodes
    return NoFields.mk
  | .decreaseTargetSize, request => do
    decreaseTargetSize request.id request.delta
    return NoFields.mk
  | .nodes, request => do return InstancesResponse.mk (← instances request.id)

/-- The response to a remote caller, or the status it gets instead. -/
def serve (m : RpcMethod) (request : m.Request) : Session (Except RpcStatus m.Response) := do
  match ← (handle m request).run with
  | .ok response => return .ok response
  | .error e => return .error e.toStatus.received

def unknownMethod : RpcStatus := ⟨.unimplemented, ""⟩

def undecodable : RpcStatus := ⟨.internal, "failed to decode Protobuf message"⟩

/-- How long a request may be, in bytes. -/
def maxRequestLength : Nat := 4194304

def oversizedRequest (length : Nat) : RpcStatus :=
  ⟨.outOfRange, "Error, decoded message length too large: found " ++ length.repr ++
    " bytes, the limit is: " ++ maxRequestLength.repr ++ " bytes"⟩

/-- How long a response may be, in bytes: what 32 bits can count. -/
def maxResponseLength : Nat := 4294967295

def oversizedResponse (length : Nat) : RpcStatus :=
  ⟨.resourceExhausted, "Cannot return body with more than 4GB of data but got " ++ length.repr ++ " bytes"⟩

/-- The bytes of a response, unless there are too many. -/
def frame (bs : Bytes) : Except RpcStatus Bytes :=
  if maxResponseLength < bs.length then .error (oversizedResponse bs.length) else .ok bs

end Pool

/-- Picks one of the forms of each response: the entries of a map are written in no fixed order. -/
structure ResponseWriter where
  write : (m : RpcMethod) → m.Response → Bytes
  writes : ∀ (m : RpcMethod) (response : m.Response), m.responseCodec.Writes response (write m response)

/-- Writes the entries of a map in the order of their bytes. -/
def ResponseWriter.sorted : ResponseWriter where
  write m := m.responseCodec.encode
  writes m := m.responseCodec.writes_encode

namespace Pool

/-- The bytes of the response to the bytes of a request. -/
def serveBytes (writer : ResponseWriter) (target : String) (bs : Bytes) :
    Session (Except RpcStatus Bytes) :=
  match RpcMethod.ofTarget? target with
  | none => return .error unknownMethod
  | some m =>
    if maxRequestLength < bs.length then return .error (oversizedRequest bs.length)
    else
      match m.requestCodec.decode? bs with
      | none => return .error undecodable
      | some request => do
        match ← serve m request with
        | .ok response => return frame (writer.write m response)
        | .error status => return .error status

end Pool

end MetalPool
