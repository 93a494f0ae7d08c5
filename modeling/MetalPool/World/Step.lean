import MetalPool.Metrics.Endpoint
import MetalPool.Pool.Service
import MetalPool.Reconcile
/-!
# Runs of the whole controller

A `Step` is one thing that can happen to a world: the controller reconciles a
record, a client calls the pool or the store, somebody looks at the counters, or
the machines change. `World.step` says what comes of it.
-/

namespace MetalPool

/-- A call on the pool from within the process. -/
inductive PoolCall where
  | groups
  | groupFor (node : Option Node)
  | targetSize (id : String)
  | increaseSize (id : String) (delta : Int32)
  | decreaseTargetSize (id : String) (delta : Int32)
  | deleteNodes (id : String) (nodes : List Node)
  | instances (id : String)
  | gpuTypeCounts
deriving Repr

/-- What a call on the pool gives. -/
inductive PoolValue where
  | unit
  | groups (groups : List NodeGroup)
  | group (group : Option NodeGroup)
  | size (n : Nat)
  | instances (instances : List PoolInstance)
  | counts (counts : SortedMap Nat)
deriving DecidableEq, Repr

def PoolCall.session : PoolCall → PoolSession PoolValue
  | .groups => do return .groups (← Pool.groups)
  | .groupFor node => do return .group (← Pool.groupFor node)
  | .targetSize id => do return .size (← Pool.targetSize id)
  | .increaseSize id delta => do
    Pool.increaseSize id delta
    return .unit
  | .decreaseTargetSize id delta => do
    Pool.decreaseTargetSize id delta
    return .unit
  | .deleteNodes id nodes => do
    Pool.deleteNodes id nodes
    return .unit
  | .instances id => do return .instances (← Pool.instances id)
  | .gpuTypeCounts => do return .counts (← Pool.gpuTypeCounts)

inductive Step where
  | reconcile (name : String) (now : Timestamp)
  | setReachable (address : String) (reachable : Bool)
  | failWith (backend : Backend) (detail : String)
  | conflictNext (name : String)
  | insert (server : Server)
  | get (name : String)
  | list
  | updatePowerState (name : String) (version : Option String) (state : PowerState)
  | updateStatus (name : String) (version : Option String) (status : ServerStatus)
  | bmcStatus (address : String)
  | pool (call : PoolCall)
  | rpc (method : RpcMethod) (request : method.Request)
  | rpcBytes (writer : ResponseWriter) (target : String) (request : Bytes)
  | http (method target : String)
  | setReady (ready : Bool)
  | recordReconciliation (result : String)
  | recordAction (kind : String) (success : Bool)
  | exposition

/-- What a step answers. -/
inductive Outcome where
  | unit
  | reconciled (result : Reconciled)
  | record (server : Option Server)
  | names (names : List String)
  | written (result : Except StoreError Unit)
  | bmcStatus (result : Except PowerError Bool)
  | pool (result : Except PoolError PoolValue)
  | rpc (method : RpcMethod) (result : Except RpcStatus method.Response)
  | rpcBytes (result : Except RpcStatus Bytes)
  | http (reply : HttpReply)
  | text (text : String)

namespace World

/-- What a step answers, and the world after it. The controller reads the time of
a reconciliation off a clock. -/
def step (w : World) : Step → Outcome × World
  | .reconcile name now => (w.reconcile name now.onClock).map .reconciled id
  | .setReachable address reachable =>
    (.unit, { w with plant := w.plant.setReachable address reachable })
  | .failWith backend detail => (.unit, { w with plant := w.plant.failWith backend detail })
  | .conflictNext name => (.unit, { w with store := w.store.conflictNext name })
  | .insert server => (.unit, { w with store := w.store.insert server })
  | .get name => (.record (w.store.get name), w)
  | .list => (.names w.store.names, w)
  | .updatePowerState name version state =>
    (w.store.updatePowerState name version state).map .written fun store => { w with store }
  | .updateStatus name version status =>
    (w.store.updateStatus name version status).map .written fun store => { w with store }
  | .bmcStatus address =>
    (w.plant.bmcStatus address).map .bmcStatus fun plant => { w with plant }
  | .pool call => (w.hold call.session.run).map .pool id
  | .rpc method request => (w.hold (Pool.serve method request)).map (.rpc method) id
  | .rpcBytes writer target request =>
    (w.hold (Pool.serveBytes writer target request)).map .rpcBytes id
  | .http method target => (.http (w.metrics.respond method target), w)
  | .setReady ready => (.unit, { w with metrics := { w.metrics with ready } })
  | .recordReconciliation result =>
    (.unit, { w with metrics := w.metrics.recordReconciliation result })
  | .recordAction kind success => (.unit, { w with metrics := w.metrics.recordAction kind success })
  | .exposition => (.text w.metrics.text, w)

/-- What can be seen of a step: its answer, the records it changed, the calls
it made, and the successful writes so far. -/
structure Report where
  outcome : Outcome
  changed : List Server
  calls : Plant
  writes : Nat

/-- Does the steps in order and reports on each. -/
def run (w : World) : List Step → List Report
  | [] => []
  | s :: rest =>
    let (outcome, after) := w.step s
    { outcome := outcome
      changed := after.store.changedSince w.store
      calls := after.plant.callsSince w.plant
      writes := after.store.writes } :: after.run rest

end World

end MetalPool
