import MetalPool.Json.Reader
import MetalPool.Store.Patch
import MetalPool.Store.Session
import MetalPool.Target
/-!
# Records in a cluster

Each request to the store is one request to the cluster's API. `apiRequest?`
says what is sent and `ofReply` reads what comes back: an answer with a status
from 400 on is an error, whose code is the one in the body if the body is an
error report and the status otherwise; any other has to hold a record, or a
list of them.
-/

namespace MetalPool

structure ApiRequest where
  method : String
  path : String
  contentType : Option String := none
  body : Option Json := none
deriving Repr

inductive ApiReply where
  | answer (status : Nat) (body : String)
  /-- The connection gave no answer. -/
  | broken
deriving DecidableEq, Repr

namespace Cluster

def serversPath : String := "/apis/baremetal.microscaler.io/v1alpha1/servers"

/-- The bytes that the target of a request can have at most. -/
def maxTargetSize : Nat := 65534

/-- The path of the record called `name`, if a record can have that name. The
name is written as it is: what looks like a query or a fragment in it is one, and
takes what follows along. -/
def recordPath? (name : String) (following : String) : Option String :=
  let text := serversPath ++ "/" ++ name ++ following
  let target := Target.ofText text
  if name ≠ "" ∧ text.utf8ByteSize ≤ maxTargetSize ∧ target.isPlain then some target.path else none

def patchType : String := "application/merge-patch+json"

/-- What is sent for a request; none where it is refused before it is sent. -/
def apiRequest? : StoreRequest → Option ApiRequest
  | .get name => (recordPath? name "").map fun path => { method := "GET", path }
  | .list => some { method := "GET", path := serversPath }
  | .updatePowerState name version state =>
    (recordPath? name "?").map fun path =>
      { method := "PATCH", path, contentType := some patchType,
        body := some (Patch.powerState version state) }
  | .updateStatus name version status =>
    (recordPath? name "/status?").map fun path =>
      { method := "PATCH", path, contentType := some patchType,
        body := some (Patch.status version status) }

/-- What an error report says. -/
structure ErrorReport where
  code : Nat
  reason : String
deriving DecidableEq, Repr

def ErrorReport.ofJson? (j : Json) : Option ErrorReport :=
  match Json.fields? ["status", "message", "reason", "code"] j with
  | some [some status, message, reason, some code] => do
    let _ ← status.asText?
    let _ ← Json.withDefault "" Json.asText? message
    return {
      reason := ← Json.withDefault "" Json.asText? reason
      code := (← code.asUInt16?).toNat }
  | _ => none

/-- Reads an answer: its body, or the report of an error. -/
def readReply : ApiReply → Except (Option ErrorReport) String
  | .broken => .error none
  | .answer status body =>
    if 400 ≤ status ∧ status < 600 then
      let report := (Json.parse? body).bind ErrorReport.ofJson?
      .error (some (report.getD { code := status, reason := "" }))
    else .ok body

/-- The error of a request about the record called `name`. -/
def errorAbout (name : String) : Option ErrorReport → StoreError
  | none => .api .unreadable
  | some report =>
    if report.code = 404 then .notFound name
    else if report.code = 409 then .conflict name
    else .api (.status report.code)

def errorOfList : Option ErrorReport → StoreError
  | none => .api .unreadable
  | some report => .api (.status report.code)

/-- The record that a body holds. -/
def readRecord (body : String) : Except StoreError Server :=
  match (Json.parse? body).bind Server.ofJson? with
  | some server => .ok server
  | none => .error (.api .unreadable)

/-- The metadata of a list, of which nothing is used. -/
def isListMetadata : Json → Bool :=
  Json.isObjectOf [("continue", Json.isText), ("remainingItemCount", Json.isInt64),
    ("resourceVersion", Json.isText), ("selfLink", Json.isText)]

/-- The members of a list that are neither its metadata nor its items are taken in
whole, though nothing is used of them. -/
def areOthersClear (ms : List (String × Json)) : Bool :=
  ms.all fun m => m.1 == "metadata" || m.1 == "items" || m.2.isClear

/-- The records of a list, in the order of the answer. Null stands for none. -/
def itemsOfJson? : Json → Option (List Server)
  | .obj ms =>
    match Json.fields? ["metadata", "items"] (.obj ms) with
    | some [metadata, some items] =>
      if metadata.all isListMetadata && areOthersClear ms then
        match items with
        | .null => some []
        | .arr items => items.mapM Server.ofJson?
        | _ => none
      else none
    | _ => none
  | _ => none

/-- By name; records of one name stay in their order. -/
def sortByName (servers : List Server) : List Server :=
  servers.mergeSort fun a b => decide (a.name ≤ b.name)

def readList (body : String) : Except StoreError (List Server) :=
  match (Json.parse? body).bind itemsOfJson? with
  | some servers => .ok (sortByName servers)
  | none => .error (.api .unreadable)

/-- What a patch came to: the patched record has to be there and is not used. -/
def readPatched (name : String) (reply : ApiReply) : Except StoreError Unit :=
  match readReply reply with
  | .error report => .error (errorAbout name report)
  | .ok body => (readRecord body).map fun _ => ()

/-- The answer to a request that was sent. A record is missing, rather than an
error, where the report gives that as its reason. -/
def ofReply : (r : StoreRequest) → ApiReply → Except StoreError r.Answer
  | .get name, reply =>
    match readReply reply with
    | .error report =>
      if report.any (·.reason == "NotFound") then .ok none else .error (errorAbout name report)
    | .ok body => (readRecord body).map some
  | .list, reply =>
    match readReply reply with
    | .error report => .error (errorOfList report)
    | .ok body => readList body
  | .updatePowerState name _ _, reply => readPatched name reply
  | .updateStatus name _ _, reply => readPatched name reply

/-- The answer to a request where the cluster replies with `reply` if it is asked. -/
def answer (r : StoreRequest) (reply : ApiReply) : Except StoreError r.Answer :=
  match apiRequest? r with
  | some _ => ofReply r reply
  | none => .error (.api .unreadable)

end Cluster

end MetalPool
