import MetalPool.Json.Basic
/-!
# Merge patches

A patch that is an object changes the members it names and leaves the others: a
null takes a member away, an object patches it in turn, any other value takes
its place. A patch that is no object replaces the whole.
-/

namespace MetalPool.Json

/-- The members without those called `name`. -/
def removeMember (name : String) (ms : List (String × Json)) : List (String × Json) :=
  ms.filter (·.1 != name)

/-- The members with `value` as the only one called `name`. -/
def setMember (name : String) (value : Json) (ms : List (String × Json)) : List (String × Json) :=
  removeMember name ms ++ [(name, value)]

mutual

/-- `target` after the patch. -/
def merge (target : Json) : Json → Json
  | .obj changes => .obj (mergeMembers target.members changes)
  | patch => patch

/-- The members `ms` after the changes, made in order. -/
def mergeMembers (ms : List (String × Json)) : List (String × Json) → List (String × Json)
  | [] => ms
  | (name, .null) :: rest => mergeMembers (removeMember name ms) rest
  | (name, patch) :: rest =>
    mergeMembers (setMember name (merge ((ms.lookup name).getD .null) patch) ms) rest

end

end MetalPool.Json
