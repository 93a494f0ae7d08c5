import MetalPool.Json.Basic
import MetalPool.Json.Quoted
import MetalPool.Server.Basic
import MetalPool.Timestamp.Printer
import MetalPool.Timestamp.Reader
/-!
# Server records as JSON

`toJson` writes a record with the fields that are always there and those that
are set; `ofJson?` reads one. Missing fields stand for their defaults, unknown
ones are passed over, and a value of the wrong kind or out of range refuses the
whole record. Null is taken only for a field that may be unset.
-/

namespace MetalPool

open Json (fields? optional withDefault member? asText? asUInt16? asUInt32? asInt64? asChoice?
  isText isBool isInt64 isObjectOf isArrayOf)

def Server.apiVersion : String := "baremetal.microscaler.io/v1alpha1"
def Server.kind : String := "Server"

/-! ## Choices and times -/

def PowerState.toJson (p : PowerState) : Json := .str p.name

def PowerState.ofJson? : Json → Option PowerState := asChoice? [("on", .on), ("off", .off)]

def ControlType.toJson (c : ControlType) : Json := .str c.name

def ControlType.ofJson? : Json → Option ControlType := asChoice? [("wol", .wol), ("ipmi", .ipmi)]

def Phase.toJson (p : Phase) : Json := .str p.name

def Phase.ofJson? : Json → Option Phase :=
  asChoice? [("pending", .pending), ("active", .active), ("offline", .offline),
    ("draining", .draining), ("failed", .failed)]

def Timestamp.toJson (t : Timestamp) : Json := .str t.toText

def Timestamp.ofJson? (j : Json) : Option Timestamp := (asText? j).bind Timestamp.parse?

/-! ## Control parameters -/

def IpmiControl.toJson (c : IpmiControl) : Json :=
  .obj [("address", .str c.address), ("username", .str c.username), ("password", .str c.password)]

def IpmiControl.ofJson? (j : Json) : Option IpmiControl :=
  match fields? ["address", "username", "password"] j with
  | some [address, username, password] => do
    return {
      address := ← withDefault "" asText? address
      username := ← withDefault "" asText? username
      password := ← withDefault "" asText? password }
  | _ => none

def WolControl.toJson (c : WolControl) : Json :=
  .obj ([("address", .str c.address), ("macAddress", .str c.macAddress),
      ("port", .int c.port.toNat)] ++
    member? "broadcastAddress" .str c.broadcastAddress ++ member? "user" .str c.user)

def WolControl.ofJson? (j : Json) : Option WolControl :=
  match fields? ["address", "macAddress", "port", "broadcastAddress", "user"] j with
  | some [address, macAddress, port, broadcastAddress, user] => do
    return {
      address := ← withDefault "" asText? address
      macAddress := ← withDefault "" asText? macAddress
      port := ← withDefault defaultWakePort asUInt16? port
      broadcastAddress := ← optional asText? broadcastAddress
      user := ← optional asText? user }
  | _ => none

def Control.toJson (c : Control) : Json :=
  .obj (member? "ipmi" IpmiControl.toJson c.ipmi ++ member? "wol" WolControl.toJson c.wol)

def Control.ofJson? (j : Json) : Option Control :=
  match fields? ["ipmi", "wol"] j with
  | some [ipmi, wol] => do
    return {
      ipmi := ← optional IpmiControl.ofJson? ipmi
      wol := ← optional WolControl.ofJson? wol }
  | _ => none

/-! ## Spec and status -/

def ServerSpec.toJson (s : ServerSpec) : Json :=
  .obj (member? "powerState" PowerState.toJson s.powerState ++
    member? "type" ControlType.toJson s.controlType ++ [("control", s.control.toJson)])

def ServerSpec.ofJson? (j : Json) : Option ServerSpec :=
  match fields? ["powerState", "type", "control"] j with
  | some [powerState, controlType, control] => do
    return {
      powerState := ← optional PowerState.ofJson? powerState
      controlType := ← optional ControlType.ofJson? controlType
      control := ← withDefault {} Control.ofJson? control }
  | _ => none

def ServerStatus.toJson (s : ServerStatus) : Json :=
  .obj (member? "status" Phase.toJson s.phase ++
    (if s.message = "" then [] else [("message", .str s.message)]) ++
    member? "failingSince" Timestamp.toJson s.failingSince ++
    [("failureCount", .int s.failureCount.toNat)])

def ServerStatus.ofJson? (j : Json) : Option ServerStatus :=
  match fields? ["status", "message", "failingSince", "failureCount"] j with
  | some [phase, message, failingSince, failureCount] => do
    return {
      phase := ← optional Phase.ofJson? phase
      message := ← withDefault "" asText? message
      failingSince := ← optional Timestamp.ofJson? failingSince
      failureCount := ← withDefault 0 asUInt32? failureCount }
  | _ => none

/-! ## Metadata -/

def labelsToJson (labels : SortedMap String) : Json :=
  .obj (labels.entries.map fun e => (e.1, .str e.2))

/-- Labels are texts by name; of two with one name the later stays. -/
def labelsOfJson? : Json → Option (SortedMap String)
  | .obj ms => (ms.mapM fun m => (asText? m.2).map fun v => (m.1, v)).map SortedMap.ofList
  | _ => none

def Metadata.toJson (m : Metadata) : Json :=
  .obj (member? "generation" (fun g : Int64 => .int g.toInt) m.generation ++
    member? "labels" labelsToJson m.labels ++
    member? "name" .str m.name ++
    member? "resourceVersion" .str m.resourceVersion)

/-- A field of metadata. It may stand more than once: all are read, the last one counts. -/
def Metadata.field? {α : Type} (name : String) (read : Json → Option α)
    (ms : List (String × Json)) : Option (Option α) :=
  ((ms.filter (·.1 == name)).mapM fun m => optional read (some m.2)).map fun vs => vs.getLast?.join

def isTime (j : Json) : Bool := (Timestamp.ofJson? j).isSome

def isLabels (j : Json) : Bool := (labelsOfJson? j).isSome

/-- Any value, also one that is given as its text. -/
def isAnything (j : Json) : Bool := j.resolve.isClear

/-- Who wrote which fields: an entry of `managedFields`. -/
def Metadata.isWriter : Json → Bool :=
  isObjectOf [("apiVersion", isText), ("fieldsType", isText), ("fieldsV1", isAnything),
    ("manager", isText), ("operation", isText), ("subresource", isText), ("time", isTime)]

/-- An entry of `ownerReferences`. -/
def Metadata.isOwner : Json → Bool :=
  isObjectOf [("apiVersion", isText), ("blockOwnerDeletion", isBool), ("controller", isBool),
    ("kind", isText), ("name", isText), ("uid", isText)]

/-- The fields of metadata that are not kept. They have to be of their kind all the same. -/
def Metadata.isRest : Json → Bool :=
  isObjectOf [("annotations", isLabels), ("creationTimestamp", isTime),
    ("deletionGracePeriodSeconds", isInt64), ("deletionTimestamp", isTime),
    ("finalizers", isArrayOf isText), ("generateName", isText),
    ("managedFields", isArrayOf isWriter), ("namespace", isText),
    ("ownerReferences", isArrayOf isOwner), ("selfLink", isText), ("uid", isText)]

def Metadata.ofJson? : Json → Option Metadata
  | .obj ms =>
    if isRest (.obj ms) then do
      return {
        name := ← field? "name" asText? ms
        generation := ← field? "generation" asInt64? ms
        labels := ← field? "labels" labelsOfJson? ms
        resourceVersion := ← field? "resourceVersion" asText? ms }
    else none
  | _ => none

/-! ## Records -/

def Server.toJson (s : Server) : Json :=
  .obj ([("apiVersion", .str apiVersion), ("kind", .str kind), ("metadata", s.metadata.toJson),
      ("spec", s.spec.toJson)] ++
    member? "status" ServerStatus.toJson s.status)

/-- Metadata and spec are required. In the form of an array the status has to
stand too, if only as null. -/
def Server.ofJson? (j : Json) : Option Server :=
  match fields? ["metadata", "spec", "status"] j with
  | some [some metadata, some spec, status] =>
    if (j matches .arr _) && status.isNone then none
    else do
      return {
        metadata := ← Metadata.ofJson? metadata
        spec := ← ServerSpec.ofJson? spec
        status := ← optional ServerStatus.ofJson? status }
  | _ => none

end MetalPool
