import MetalPool.Server.Record
import MetalPool.Yaml
/-!
# The manifest of the record type

What a cluster is told about `Server` records before it can hold them: their
group, version and names, the columns of a listing, and a schema of their fields.
Members stand in the order of their names.
-/

namespace MetalPool.Manifest

/-- What a schema says of one value. -/
structure Schema where
  type : String
  description : Option String := none
  default : Option Json := none
  choices : List String := []
  format : Option String := none
  maximum : Option Nat := none
  minimum : Option Nat := none
  nullable : Bool := false
  properties : List (String × Json) := []
  required : List String := []
  title : Option String := none

/-- A bound of a number, which need not be an integer. -/
def bound (n : Nat) : Json := .decimal (n.repr ++ ".0")

def names (ns : List String) : Json := .arr (ns.map .str)

def Schema.toJson (s : Schema) : Json :=
  .obj (Json.member? "default" id s.default ++
    Json.member? "description" .str s.description ++
    (if s.choices = [] then [] else [("enum", names s.choices)]) ++
    Json.member? "format" .str s.format ++
    Json.member? "maximum" bound s.maximum ++
    Json.member? "minimum" bound s.minimum ++
    (if s.nullable then [("nullable", .bool true)] else []) ++
    (if s.properties.isEmpty then [] else [("properties", .obj s.properties)]) ++
    (if s.required = [] then [] else [("required", names s.required)]) ++
    Json.member? "title" .str s.title ++
    [("type", .str s.type)])

/-- A text that is empty unless given. -/
def textField (description : Option String) : Json :=
  { type := "string", description, default := some (.str "") : Schema }.toJson

/-- A text that may be left out. -/
def optionalText (description : String) : Json :=
  { type := "string", description := some description, nullable := true : Schema }.toJson

/-- One of a few names, or nothing. -/
def choiceField (description : String) (choices : List String) : Json :=
  { type := "string", description := some description, choices, nullable := true : Schema }.toJson

/-! ## Fields -/

def ipmiSchema : Json :=
  { type := "object", nullable := true
    properties :=
      [("address", textField (some "BMC address (also probed for reachability)")),
        ("password", textField none),
        ("username", textField none)] : Schema }.toJson

def portSchema : Json :=
  { type := "integer", format := some "uint16", minimum := some 0, maximum := some 65535
    default := some (.int defaultWakePort.toNat)
    description := some "UDP port for the magic packet" : Schema }.toJson

def wolSchema : Json :=
  { type := "object", nullable := true
    properties :=
      [("address", textField (some "Host address, used for reachability and SSH shutdown")),
        ("broadcastAddress", optionalText "Broadcast address (sender default when unset)"),
        ("macAddress", textField (some "MAC address the magic packet targets")),
        ("port", portSchema),
        ("user", optionalText "SSH user for shutdown (executor default when unset)")] :
      Schema }.toJson

def controlSchema : Json :=
  { type := "object", description := some "Method-specific control parameters"
    default := some (.obj [])
    properties := [("ipmi", ipmiSchema), ("wol", wolSchema)] : Schema }.toJson

def powerStates : List PowerState := [.on, .off]
def controlTypes : List ControlType := [.wol, .ipmi]
def phases : List Phase := [.pending, .active, .offline, .draining, .failed]

def specSchema : Json :=
  { type := "object"
    properties :=
      [("control", controlSchema),
        ("powerState", choiceField "Desired power state (treated as `off` when unset)"
          (powerStates.map (·.name))),
        ("type", choiceField "Control method used to drive the machine"
          (controlTypes.map (·.name)))] : Schema }.toJson

def failingSinceSchema : Json :=
  { type := "string", format := some "date-time", nullable := true
    description := some "First failure of the current streak" : Schema }.toJson

def failureCountSchema : Json :=
  { type := "integer", format := some "uint32", minimum := some 0, default := some (.int 0)
    description := some "Consecutive failures in the current streak" : Schema }.toJson

def messageSchema : Json :=
  { type := "string", description := some "Last human-readable error" : Schema }.toJson

def statusSchema : Json :=
  { type := "object", nullable := true
    properties :=
      [("failingSince", failingSinceSchema),
        ("failureCount", failureCountSchema),
        ("message", messageSchema),
        ("status", choiceField "Observed lifecycle phase (unset until first classification)"
          (phases.map (·.name)))] : Schema }.toJson

def recordSchema : Json :=
  { type := "object", title := some Server.kind, required := ["spec"]
    description := some "Auto-generated derived type for ServerSpec via `CustomResource`"
    properties := [("spec", specSchema), ("status", statusSchema)] : Schema }.toJson

/-! ## The manifest -/

def group : String := "baremetal.microscaler.io"
def version : String := "v1alpha1"
def singular : String := "server"
def plural : String := "servers"

example : Server.apiVersion = group ++ "/" ++ version := by decide

/-- A column of a listing. -/
def column (path name type : String) : Json :=
  .obj [("jsonPath", .str path), ("name", .str name), ("type", .str type)]

def versionJson : Json :=
  .obj [
    ("additionalPrinterColumns", .arr [
      column ".spec.powerState" "Desired" "string",
      column ".status.status" "Phase" "string",
      column ".status.failureCount" "Failures" "integer"]),
    ("name", .str version),
    ("schema", .obj [("openAPIV3Schema", recordSchema)]),
    ("served", .bool true),
    ("storage", .bool true),
    ("subresources", .obj [("status", .obj [])])]

def namesJson : Json :=
  .obj [
    ("categories", .arr []),
    ("kind", .str Server.kind),
    ("plural", .str plural),
    ("shortNames", .arr []),
    ("singular", .str singular)]

def json : Json :=
  .obj [
    ("apiVersion", .str "apiextensions.k8s.io/v1"),
    ("kind", .str "CustomResourceDefinition"),
    ("metadata", .obj [("name", .str (plural ++ "." ++ group))]),
    ("spec", .obj [
      ("group", .str group),
      ("names", namesJson),
      ("scope", .str "Cluster"),
      ("versions", .arr [versionJson])])]

/-- The manifest as a cluster's tools read it. -/
def text : String := json.toYaml

end MetalPool.Manifest
