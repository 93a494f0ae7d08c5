import MetalPool.Pool.Error
import MetalPool.Pool.Types
import MetalPool.Store.Session
/-!
# Scaling the pool

All machines form one node group. Growing it turns the desired state of
machines that should be off to on, shrinking it the other way round; no machine
is touched here. Each call is a session with the record store.
-/

namespace MetalPool

/-- A session that a refusal ends. -/
abbrev PoolSession (α : Type) := ExceptT PoolError Session α

namespace Pool

/-- The id of the one node group. -/
def groupId : String := "bare-metal-pool"

/-- The label by which the autoscaler knows nodes with a GPU. -/
def gpuNodeLabel : String := "nvidia.com/gpu"

/-- Asks the store; what it refuses ends the session. -/
def ask (r : StoreRequest) : PoolSession r.Answer :=
  ExceptT.mk do
    match ← Session.request r with
    | .ok answer => return .ok answer
    | .error e => return .error (.store e)

def checkGroup (id : String) : PoolSession Unit :=
  if id = groupId then pure () else throw (.unknownNodeGroup id)

/-- A count as the protocol writes it: at most 2147483647. -/
def size (n : Nat) : Int32 := Int32.ofNat (min n 2147483647)

/-- The group of `n` machines. -/
def group (n : Nat) : NodeGroup := { id := groupId, minSize := 0, maxSize := size n }

def groups : PoolSession (List NodeGroup) := do
  let servers : List Server ← ask .list
  return [group servers.length]

/-- The group that a node belongs to, if a record has its name. -/
def groupFor (node : Option Node) : PoolSession (Option NodeGroup) :=
  match node with
  | none => throw (.invalidArgument "node is required")
  | some node => do
    let server : Option Server ← ask (.get node.name)
    if server.isNone then return none
    let servers : List Server ← ask .list
    return some (group servers.length)

/-- The machine should be on, and its record says so. -/
def isRunning (s : Server) : Bool := s.spec.powerState == some .on

/-- How many machines should be on. -/
def targetSize (id : String) : PoolSession Nat := do
  checkGroup id
  let servers : List Server ← ask .list
  return servers.countP isRunning

/-- Sets the desired state of the listed records one by one, each at the
version it was listed with, and counts them. -/
def setAll (state : PowerState) : List Server → PoolSession Nat
  | [] => return 0
  | s :: rest => do
    let _ : Unit ← ask (.updatePowerState s.name s.version? state)
    return (← setAll state rest) + 1

/-- The first `n` of the records whose desired state is `source`. -/
def candidates (source : PowerState) (n : Nat) (servers : List Server) : List Server :=
  (servers.filter (·.spec.desired = source)).take n

/-- Turns up to `n` machines from one desired state to the other. -/
def flip (n : Nat) (source target : PowerState) : PoolSession Nat := do
  let servers : List Server ← ask .list
  setAll target (candidates source n servers)

/-- Turns on `delta` machines. Those turned on stay so if there are not enough. -/
def increaseSize (id : String) (delta : Int32) : PoolSession Unit := do
  checkGroup id
  if delta ≤ 0 then return
  let requested := delta.toInt.toNat
  let provisioned ← flip requested .off .on
  if provisioned < requested then throw (.insufficientCapacity requested provisioned)

/-- Turns off up to `delta` machines. -/
def decreaseTargetSize (id : String) (delta : Int32) : PoolSession Unit := do
  checkGroup id
  if delta ≤ 0 then return
  let _ ← flip delta.toInt.toNat .on .off
  return

/-- Turns off the machines of the nodes, one after the other. -/
def turnOff : List Node → PoolSession Unit
  | [] => return
  | node :: rest => do
    let found : Option Server ← ask (.get node.name)
    match found with
    | none => throw (.unknownNode node.name)
    | some s =>
      let _ : Unit ← ask (.updatePowerState s.name s.version? .off)
      turnOff rest

def deleteNodes (id : String) (nodes : List Node) : PoolSession Unit := do
  checkGroup id
  turnOff nodes

/-- The state of a machine as a number of the protocol: running, deleting, or
neither while no state is desired. -/
def instanceState (s : Server) : Int32 :=
  match s.spec.powerState with
  | some .on => 1
  | some .off => 3
  | none => 0

def instanceOf (s : Server) : PoolInstance :=
  { id := s.name, status := some { state := instanceState s } }

/-- One instance for each record. -/
def instances (id : String) : PoolSession (List PoolInstance) := do
  checkGroup id
  let servers : List Server ← ask .list
  return servers.map instanceOf

/-- How many records carry each label that names a kind of GPU. -/
def countLabels (labels : List String) : SortedMap Nat :=
  labels.foldl (fun counts label => counts.insert label ((counts.get? label).getD 0 + 1)) .empty

def gpuTypeCounts : PoolSession (SortedMap Nat) := do
  let servers : List Server ← ask .list
  return countLabels (servers.filterMap Server.gpuType?)

end Pool

end MetalPool
