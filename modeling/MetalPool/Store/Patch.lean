import MetalPool.Server.Record
/-!
# Merge patches for records

The patch of a status names each of its fields, with null for one that is not
set, so that nothing of the status before is left. A patch that carries a
version is refused by the cluster when the record is at another.
-/

namespace MetalPool.Patch

/-- The member that names the version the patch is for. -/
def versionMember (version : Option String) : List (String × Json) :=
  Json.member? "metadata" (fun v : String => .obj [("resourceVersion", .str v)]) version

def powerState (version : Option String) (state : PowerState) : Json :=
  .obj (("spec", .obj [("powerState", state.toJson)]) :: versionMember version)

/-- Times lose their fraction of a second. -/
def status (version : Option String) (s : ServerStatus) : Json :=
  let fields : List (String × Json) :=
    [("status", s.phase.elim .null Phase.toJson),
      ("message", if s.message = "" then .null else .str s.message),
      ("failingSince", s.failingSince.elim .null fun t => .str t.toWholeSecondsText),
      ("failureCount", .int s.failureCount.toNat)]
  .obj (("status", .obj fields) :: versionMember version)

end MetalPool.Patch
