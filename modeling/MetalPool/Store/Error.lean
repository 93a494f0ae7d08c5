/-!
# Refusals of the record store
-/

namespace MetalPool

/-- Why the cluster's API gave no record. -/
inductive ApiFailure where
  /-- It answered with an error of this code. -/
  | status (code : Nat)
  /-- It could not be asked, or what it answered could not be read. -/
  | unreadable
deriving DecidableEq, Repr

def ApiFailure.message : ApiFailure → String
  | .status code => "the API answered with status " ++ code.repr
  | .unreadable => "the API gave no usable answer"

inductive StoreError where
  | notFound (name : String)
  /-- The record changed since it was read. -/
  | conflict (name : String)
  | api (failure : ApiFailure)
deriving DecidableEq, Repr

def StoreError.message : StoreError → String
  | .notFound name => "Server not found: " ++ name
  | .conflict name => "Conflict updating server " ++ name ++ ": resource version is stale"
  | .api failure => "Kubernetes error: " ++ failure.message

end MetalPool
