import MetalPool.Pool.Service
import MetalPool.Proofs.Wire.Slots
/-!
# The messages of the protocol

Each codec of the protocol as a `Message`, by its slots: that these are the fields
of the codec, that they stay apart, and that they make up the message.
-/

namespace MetalPool

open Wire

def NodeGroup.message : Message NodeGroup where
  codec := codec
  slots := [
    .text 1 (·.id) ({ · with id := · }) (by decide) fun _ _ => rfl,
    .int32 2 (·.minSize) ({ · with minSize := · }) (by decide) fun _ _ => rfl,
    .int32 3 (·.maxSize) ({ · with maxSize := · }) (by decide) fun _ _ => rfl,
    .text 4 (·.debug) ({ · with debug := · }) (by decide) fun _ _ => rfl]
  fields_eq := rfl
  initial_eq := by
    simp only [List.forall_mem_cons]
    exact ⟨rfl, rfl, rfl, rfl, nofun⟩
  apart := by
    simp only [List.pairwise_cons, List.forall_mem_cons]
    refine ⟨⟨?_, ?_, ?_, nofun⟩, ⟨?_, ?_, nofun⟩, ⟨?_, nofun⟩, nofun, .nil⟩ <;>
      exact ⟨by decide, fun _ _ => rfl, fun _ _ => rfl⟩
  ext a b h := by
    simp only [List.forall_mem_cons] at h
    obtain ⟨hid, hmin, hmax, hdebug, -⟩ := h
    cases a; cases b; cases hid; cases hmin; cases hmax; cases hdebug
    rfl

def textEntryMessage : Message (String × String) :=
  .pair textEntry
    (.text 1 Prod.fst (fun e k => (k, e.2)) (by decide) fun _ _ => rfl)
    (.text 2 Prod.snd (fun e v => (e.1, v)) (by decide) fun _ _ => rfl)
    rfl ⟨rfl, rfl⟩ ⟨by decide, fun _ _ => rfl, fun _ _ => rfl⟩ fun _ _ => Prod.ext

def Node.message : Message Node where
  codec := codec
  slots := [
    .text 1 (·.providerId) ({ · with providerId := · }) (by decide) fun _ _ => rfl,
    .text 2 (·.name) ({ · with name := · }) (by decide) fun _ _ => rfl,
    .map 3 textEntryMessage (·.labels) ({ · with labels := · }) (by decide) fun _ _ => rfl,
    .map 4 textEntryMessage (·.annotations) ({ · with annotations := · }) (by decide) fun _ _ => rfl]
  fields_eq := rfl
  initial_eq := by
    simp only [List.forall_mem_cons]
    exact ⟨rfl, rfl, rfl, rfl, nofun⟩
  apart := by
    simp only [List.pairwise_cons, List.forall_mem_cons]
    refine ⟨⟨?_, ?_, ?_, nofun⟩, ⟨?_, ?_, nofun⟩, ⟨?_, nofun⟩, nofun, .nil⟩ <;>
      exact ⟨by decide, fun _ _ => rfl, fun _ _ => rfl⟩
  ext a b h := by
    simp only [List.forall_mem_cons] at h
    obtain ⟨hid, hname, hlabels, hannotations, -⟩ := h
    cases a; cases b; cases hid; cases hname; cases hlabels; cases hannotations
    rfl

def InstanceErrorInfo.message : Message InstanceErrorInfo where
  codec := codec
  slots := [
    .text 1 (·.errorCode) ({ · with errorCode := · }) (by decide) fun _ _ => rfl,
    .text 2 (·.errorMessage) ({ · with errorMessage := · }) (by decide) fun _ _ => rfl,
    .int32 3 (·.errorClass) ({ · with errorClass := · }) (by decide) fun _ _ => rfl]
  fields_eq := rfl
  initial_eq := by
    simp only [List.forall_mem_cons]
    exact ⟨rfl, rfl, rfl, nofun⟩
  apart := by
    simp only [List.pairwise_cons, List.forall_mem_cons]
    refine ⟨⟨?_, ?_, nofun⟩, ⟨?_, nofun⟩, nofun, .nil⟩ <;>
      exact ⟨by decide, fun _ _ => rfl, fun _ _ => rfl⟩
  ext a b h := by
    simp only [List.forall_mem_cons] at h
    obtain ⟨hcode, hmessage, hclass, -⟩ := h
    cases a; cases b; cases hcode; cases hmessage; cases hclass
    rfl

def InstanceStatus.message : Message InstanceStatus :=
  .pair codec
    (.int32 1 (·.state) ({ · with state := · }) (by decide) fun _ _ => rfl)
    (.message 2 InstanceErrorInfo.message (·.errorInfo) (fun m e => { m with errorInfo := some e })
      (by decide) fun _ _ => rfl)
    rfl ⟨rfl, rfl⟩ ⟨by decide, fun _ _ => rfl, fun _ _ => rfl⟩
    fun ⟨_, _⟩ ⟨_, _⟩ hstate hinfo => congr (congrArg mk hstate) hinfo

def PoolInstance.message : Message PoolInstance :=
  .pair codec
    (.text 1 (·.id) ({ · with id := · }) (by decide) fun _ _ => rfl)
    (.message 2 InstanceStatus.message (·.status) (fun m s => { m with status := some s })
      (by decide) fun _ _ => rfl)
    rfl ⟨rfl, rfl⟩ ⟨by decide, fun _ _ => rfl, fun _ _ => rfl⟩
    fun ⟨_, _⟩ ⟨_, _⟩ hid hstatus => congr (congrArg mk hid) hstatus

def PackedMessage.message : Message PackedMessage :=
  .pair codec
    (.text 1 (·.typeUrl) ({ · with typeUrl := · }) (by decide) fun _ _ => rfl)
    (.bytes 2 (·.value) ({ · with value := · }) (by decide) fun _ _ => rfl)
    rfl ⟨rfl, rfl⟩ ⟨by decide, fun _ _ => rfl, fun _ _ => rfl⟩
    fun ⟨_, _⟩ ⟨_, _⟩ hurl hvalue => congr (congrArg mk hurl) hvalue

def packedEntryMessage : Message (String × PackedMessage) :=
  .pair packedEntry
    (.text 1 Prod.fst (fun e k => (k, e.2)) (by decide) fun _ _ => rfl)
    (.embedded 2 PackedMessage.message Prod.snd (fun e v => (e.1, v)) (by decide) fun _ _ => rfl)
    rfl ⟨rfl, rfl⟩ ⟨by decide, fun _ _ => rfl, fun _ _ => rfl⟩ fun _ _ => Prod.ext

def int64Message : Message Int64 :=
  .single int64Codec (.int64 1 id (fun _ n => n) (by decide) fun _ _ => rfl) rfl rfl fun _ _ h => h

def NoFields.message : Message NoFields where
  codec := codec
  slots := []
  fields_eq := rfl
  initial_eq := nofun
  apart := .nil
  ext _ _ _ := rfl

def NodeGroupsResponse.message : Message NodeGroupsResponse :=
  .single codec
    (.repeated 1 NodeGroup.message (·.nodeGroups) ({ · with nodeGroups := · }) (by decide)
      fun _ _ => rfl)
    rfl rfl fun ⟨_⟩ ⟨_⟩ h => congrArg mk h

def NodeGroupForNodeRequest.message : Message NodeGroupForNodeRequest :=
  .single codec
    (.message 1 Node.message (·.node) (fun m n => { m with node := some n }) (by decide) fun _ _ => rfl)
    rfl rfl fun ⟨_⟩ ⟨_⟩ h => congrArg mk h

def NodeGroupForNodeResponse.message : Message NodeGroupForNodeResponse :=
  .single codec
    (.message 1 NodeGroup.message (·.nodeGroup) (fun m g => { m with nodeGroup := some g }) (by decide)
      fun _ _ => rfl)
    rfl rfl fun ⟨_⟩ ⟨_⟩ h => congrArg mk h

def GpuLabelResponse.message : Message GpuLabelResponse :=
  .single codec (.text 1 (·.label) ({ · with label := · }) (by decide) fun _ _ => rfl) rfl rfl
    fun ⟨_⟩ ⟨_⟩ h => congrArg mk h

def GpuTypesResponse.message : Message GpuTypesResponse :=
  .single codec
    (.map 1 packedEntryMessage (·.gpuTypes) ({ · with gpuTypes := · }) (by decide) fun _ _ => rfl)
    rfl rfl fun ⟨_⟩ ⟨_⟩ h => congrArg mk h

def GroupRequest.message : Message GroupRequest :=
  .single codec (.text 1 (·.id) ({ · with id := · }) (by decide) fun _ _ => rfl) rfl rfl
    fun ⟨_⟩ ⟨_⟩ h => congrArg mk h

def TargetSizeResponse.message : Message TargetSizeResponse :=
  .single codec (.int32 1 (·.targetSize) ({ · with targetSize := · }) (by decide) fun _ _ => rfl)
    rfl rfl fun ⟨_⟩ ⟨_⟩ h => congrArg mk h

def ResizeRequest.message : Message ResizeRequest :=
  .pair codec
    (.int32 1 (·.delta) ({ · with delta := · }) (by decide) fun _ _ => rfl)
    (.text 2 (·.id) ({ · with id := · }) (by decide) fun _ _ => rfl)
    rfl ⟨rfl, rfl⟩ ⟨by decide, fun _ _ => rfl, fun _ _ => rfl⟩
    fun ⟨_, _⟩ ⟨_, _⟩ hdelta hid => congr (congrArg mk hdelta) hid

def DeleteNodesRequest.message : Message DeleteNodesRequest :=
  .pair codec
    (.repeated 1 Node.message (·.nodes) ({ · with nodes := · }) (by decide) fun _ _ => rfl)
    (.text 2 (·.id) ({ · with id := · }) (by decide) fun _ _ => rfl)
    rfl ⟨rfl, rfl⟩ ⟨by decide, fun _ _ => rfl, fun _ _ => rfl⟩
    fun ⟨_, _⟩ ⟨_, _⟩ hnodes hid => congr (congrArg mk hnodes) hid

def InstancesResponse.message : Message InstancesResponse :=
  .single codec
    (.repeated 1 PoolInstance.message (·.instances) ({ · with instances := · }) (by decide)
      fun _ _ => rfl)
    rfl rfl fun ⟨_⟩ ⟨_⟩ h => congrArg mk h

/-! ## All of them -/

/-- The types of message in the protocol. -/
inductive MessageType where
  | nodeGroup
  | node
  | instanceErrorInfo
  | instanceStatus
  | poolInstance
  | packed
  | int64
  | noFields
  | nodeGroupsResponse
  | nodeGroupForNodeRequest
  | nodeGroupForNodeResponse
  | gpuLabelResponse
  | gpuTypesResponse
  | groupRequest
  | targetSizeResponse
  | resizeRequest
  | deleteNodesRequest
  | instancesResponse

namespace MessageType

def Value : MessageType → Type
  | .nodeGroup => NodeGroup
  | .node => Node
  | .instanceErrorInfo => InstanceErrorInfo
  | .instanceStatus => InstanceStatus
  | .poolInstance => PoolInstance
  | .packed => PackedMessage
  | .int64 => Int64
  | .noFields => NoFields
  | .nodeGroupsResponse => NodeGroupsResponse
  | .nodeGroupForNodeRequest => NodeGroupForNodeRequest
  | .nodeGroupForNodeResponse => NodeGroupForNodeResponse
  | .gpuLabelResponse => GpuLabelResponse
  | .gpuTypesResponse => GpuTypesResponse
  | .groupRequest => GroupRequest
  | .targetSizeResponse => TargetSizeResponse
  | .resizeRequest => ResizeRequest
  | .deleteNodesRequest => DeleteNodesRequest
  | .instancesResponse => InstancesResponse

def codec : (t : MessageType) → Codec t.Value
  | .nodeGroup => NodeGroup.codec
  | .node => Node.codec
  | .instanceErrorInfo => InstanceErrorInfo.codec
  | .instanceStatus => InstanceStatus.codec
  | .poolInstance => PoolInstance.codec
  | .packed => PackedMessage.codec
  | .int64 => int64Codec
  | .noFields => NoFields.codec
  | .nodeGroupsResponse => NodeGroupsResponse.codec
  | .nodeGroupForNodeRequest => NodeGroupForNodeRequest.codec
  | .nodeGroupForNodeResponse => NodeGroupForNodeResponse.codec
  | .gpuLabelResponse => GpuLabelResponse.codec
  | .gpuTypesResponse => GpuTypesResponse.codec
  | .groupRequest => GroupRequest.codec
  | .targetSizeResponse => TargetSizeResponse.codec
  | .resizeRequest => ResizeRequest.codec
  | .deleteNodesRequest => DeleteNodesRequest.codec
  | .instancesResponse => InstancesResponse.codec

def message : (t : MessageType) → Message t.Value
  | .nodeGroup => NodeGroup.message
  | .node => Node.message
  | .instanceErrorInfo => InstanceErrorInfo.message
  | .instanceStatus => InstanceStatus.message
  | .poolInstance => PoolInstance.message
  | .packed => PackedMessage.message
  | .int64 => int64Message
  | .noFields => NoFields.message
  | .nodeGroupsResponse => NodeGroupsResponse.message
  | .nodeGroupForNodeRequest => NodeGroupForNodeRequest.message
  | .nodeGroupForNodeResponse => NodeGroupForNodeResponse.message
  | .gpuLabelResponse => GpuLabelResponse.message
  | .gpuTypesResponse => GpuTypesResponse.message
  | .groupRequest => GroupRequest.message
  | .targetSizeResponse => TargetSizeResponse.message
  | .resizeRequest => ResizeRequest.message
  | .deleteNodesRequest => DeleteNodesRequest.message
  | .instancesResponse => InstancesResponse.message

theorem codec_message (t : MessageType) : t.message.codec = t.codec := by
  cases t <;> rfl

/-- No message nests nearly as deep as messages may. -/
theorem height_message (t : MessageType) : t.message.height ≤ maxDepth := by
  cases t <;> decide

end MessageType

namespace RpcMethod

def requestMessage : (m : RpcMethod) → Message m.Request
  | .nodeGroupForNode => NodeGroupForNodeRequest.message
  | .targetSize | .nodes => GroupRequest.message
  | .increaseSize | .decreaseTargetSize => ResizeRequest.message
  | .deleteNodes => DeleteNodesRequest.message
  | .nodeGroups | .gpuLabel | .availableGpuTypes | .cleanup | .refresh => NoFields.message

theorem codec_requestMessage (m : RpcMethod) : m.requestMessage.codec = m.requestCodec := by
  cases m <;> rfl

theorem height_requestMessage (m : RpcMethod) : m.requestMessage.height ≤ maxDepth := by
  cases m <;> decide

end RpcMethod

end MetalPool
