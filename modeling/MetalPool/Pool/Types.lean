import MetalPool.SortedMap
import MetalPool.Text.Bytes
/-!
# What the autoscaler sees

Node groups, nodes and instances as the autoscaler's protocol describes them,
and the requests and responses of that protocol.
-/

namespace MetalPool

structure NodeGroup where
  id : String := ""
  minSize : Int32 := 0
  maxSize : Int32 := 0
  debug : String := ""
deriving DecidableEq, Repr, Inhabited

structure Node where
  providerId : String := ""
  name : String := ""
  labels : SortedMap String := .empty
  annotations : SortedMap String := .empty
deriving DecidableEq, Repr, Inhabited

structure InstanceErrorInfo where
  errorCode : String := ""
  errorMessage : String := ""
  errorClass : Int32 := 0
deriving DecidableEq, Repr, Inhabited

/-- The number of a state is kept even where it names none. -/
structure InstanceStatus where
  state : Int32 := 0
  errorInfo : Option InstanceErrorInfo := none
deriving DecidableEq, Repr, Inhabited

structure PoolInstance where
  id : String := ""
  status : Option InstanceStatus := none
deriving DecidableEq, Repr, Inhabited

/-- A message of any type, with the name of its type. -/
structure PackedMessage where
  typeUrl : String := ""
  value : Bytes := []
deriving DecidableEq, Repr, Inhabited

/-! ## Requests and responses -/

/-- A message without fields. -/
structure NoFields where
deriving DecidableEq, Repr, Inhabited

structure NodeGroupsResponse where
  nodeGroups : List NodeGroup := []
deriving DecidableEq, Repr, Inhabited

structure NodeGroupForNodeRequest where
  node : Option Node := none
deriving DecidableEq, Repr, Inhabited

structure NodeGroupForNodeResponse where
  nodeGroup : Option NodeGroup := none
deriving DecidableEq, Repr, Inhabited

structure GpuLabelResponse where
  label : String := ""
deriving DecidableEq, Repr, Inhabited

structure GpuTypesResponse where
  gpuTypes : SortedMap PackedMessage := .empty
deriving DecidableEq, Repr, Inhabited

structure GroupRequest where
  id : String := ""
deriving DecidableEq, Repr, Inhabited

structure TargetSizeResponse where
  targetSize : Int32 := 0
deriving DecidableEq, Repr, Inhabited

structure ResizeRequest where
  delta : Int32 := 0
  id : String := ""
deriving DecidableEq, Repr, Inhabited

structure DeleteNodesRequest where
  nodes : List Node := []
  id : String := ""
deriving DecidableEq, Repr, Inhabited

structure InstancesResponse where
  instances : List PoolInstance := []
deriving DecidableEq, Repr, Inhabited

end MetalPool
