import MetalPool.Pool.Types
import MetalPool.Wire.Codec
/-!
# The messages of the autoscaler's protocol

The codec of each message: its fields with their numbers.
-/

namespace MetalPool

open Wire FieldCodec

def NodeGroup.codec : Codec NodeGroup where
  default := {}
  fields := [
    text 1 (·.id) ({ · with id := · }),
    int32 2 (·.minSize) ({ · with minSize := · }),
    int32 3 (·.maxSize) ({ · with maxSize := · }),
    text 4 (·.debug) ({ · with debug := · })]

/-- An entry whose value is a text. -/
def textEntry : Codec (String × String) := entry (text 2 Prod.snd (fun e v => (e.1, v))) ""

def Node.codec : Codec Node where
  default := {}
  fields := [
    text 1 (·.providerId) ({ · with providerId := · }),
    text 2 (·.name) ({ · with name := · }),
    FieldCodec.map 3 textEntry (·.labels) ({ · with labels := · }),
    FieldCodec.map 4 textEntry (·.annotations) ({ · with annotations := · })]

def InstanceErrorInfo.codec : Codec InstanceErrorInfo where
  default := {}
  fields := [
    text 1 (·.errorCode) ({ · with errorCode := · }),
    text 2 (·.errorMessage) ({ · with errorMessage := · }),
    int32 3 (·.errorClass) ({ · with errorClass := · })]

def InstanceStatus.codec : Codec InstanceStatus where
  default := {}
  fields := [
    int32 1 (·.state) ({ · with state := · }),
    message 2 InstanceErrorInfo.codec (·.errorInfo) (fun m e => { m with errorInfo := some e })]

def PoolInstance.codec : Codec PoolInstance where
  default := {}
  fields := [
    text 1 (·.id) ({ · with id := · }),
    message 2 InstanceStatus.codec (·.status) (fun m s => { m with status := some s })]

def PackedMessage.codec : Codec PackedMessage where
  default := {}
  fields := [
    text 1 (·.typeUrl) ({ · with typeUrl := · }),
    bytes 2 (·.value) ({ · with value := · })]

/-- An entry whose value is a packed message; a value of defaults is left out. -/
def packedEntry : Codec (String × PackedMessage) :=
  let value : FieldCodec (String × PackedMessage) :=
    message 2 PackedMessage.codec (fun e => if e.2 = {} then none else some e.2)
      (fun e v => (e.1, v))
  entry value {}

/-- A number packed as the standard wrapper of 64-bit numbers. -/
def int64Codec : Codec Int64 where
  default := 0
  fields := [int64 1 id (fun _ n => n)]

def int64TypeUrl : String := "type.googleapis.com/google.protobuf.Int64Value"

def PackedMessage.ofInt64 (n : Int64) : PackedMessage := ⟨int64TypeUrl, int64Codec.encode n⟩

def NoFields.codec : Codec NoFields := ⟨{}, []⟩

def NodeGroupsResponse.codec : Codec NodeGroupsResponse where
  default := {}
  fields := [repeated 1 NodeGroup.codec (·.nodeGroups) ({ · with nodeGroups := · })]

def NodeGroupForNodeRequest.codec : Codec NodeGroupForNodeRequest where
  default := {}
  fields := [message 1 Node.codec (·.node) (fun m n => { m with node := some n })]

def NodeGroupForNodeResponse.codec : Codec NodeGroupForNodeResponse where
  default := {}
  fields := [message 1 NodeGroup.codec (·.nodeGroup) (fun m g => { m with nodeGroup := some g })]

def GpuLabelResponse.codec : Codec GpuLabelResponse where
  default := {}
  fields := [text 1 (·.label) ({ · with label := · })]

def GpuTypesResponse.codec : Codec GpuTypesResponse where
  default := {}
  fields := [FieldCodec.map 1 packedEntry (·.gpuTypes) ({ · with gpuTypes := · })]

def GroupRequest.codec : Codec GroupRequest where
  default := {}
  fields := [text 1 (·.id) ({ · with id := · })]

def TargetSizeResponse.codec : Codec TargetSizeResponse where
  default := {}
  fields := [int32 1 (·.targetSize) ({ · with targetSize := · })]

def ResizeRequest.codec : Codec ResizeRequest where
  default := {}
  fields := [
    int32 1 (·.delta) ({ · with delta := · }),
    text 2 (·.id) ({ · with id := · })]

def DeleteNodesRequest.codec : Codec DeleteNodesRequest where
  default := {}
  fields := [
    repeated 1 Node.codec (·.nodes) ({ · with nodes := · }),
    text 2 (·.id) ({ · with id := · })]

def InstancesResponse.codec : Codec InstancesResponse where
  default := {}
  fields := [repeated 1 PoolInstance.codec (·.instances) ({ · with instances := · })]

end MetalPool
