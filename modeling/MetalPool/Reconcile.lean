import MetalPool.Controller.Error
import MetalPool.Lifecycle
import MetalPool.World.Basic
/-!
# Reconciling one record

A reconciliation reads a record, probes its machine, issues at most one power
command and writes the status back, at the version read and only if it changed.
A failure of that write wins over every other result.
-/

namespace MetalPool

/-- When to look at the record again, if the controller is to come back to it. -/
abbrev Reconciled := Except ControllerError (Option Span)

namespace World

variable {σ : Type}

/-- Writes the status of a record unless it is the one observed. -/
def persist (w : World σ) (name : String) (version : Option String)
    (observed status : ServerStatus) : Except ControllerError Unit × World σ :=
  if status = observed then (.ok (), w)
  else
    let (result, store) := w.store.updateStatus name version status
    (result.mapError .store, { w with store })

/-- Ends a reconciliation with `result`, once the status is written. -/
def conclude (w : World σ) (name : String) (version : Option String)
    (observed status : ServerStatus) (result : Reconciled) : Reconciled × World σ :=
  match w.persist name version observed status with
  | (.ok _, w) => (result, w)
  | (.error e, w) => (.error e, w)

variable [Backends σ]

/-- Carries out a command and counts it. -/
def execute (w : World σ) (command : PowerCommand) : Except ActionError Unit × World σ :=
  let (result, plant) := Backends.execute w.plant command
  (result.mapError .power,
    { w with
      plant := plant
      metrics := w.metrics.recordAction command.label (result matches .ok _) })

/-- Plans the command toward `desired` and carries it out. -/
def act (w : World σ) (spec : ServerSpec) (desired : PowerState) :
    Except ActionError Unit × World σ :=
  match spec.plan desired with
  | .ok command => w.execute command
  | .error e => (.error (.config e.message), w)

/-- The address answers or not, and the world after the probe. -/
def probe (w : World σ) (address : String) : Bool × World σ :=
  let (reachable, plant) := Backends.probe w.plant address
  (reachable, { w with plant })

def noAddressMessage (name : String) : String := "no address configured for server " ++ name

/-- Goes on with a record whose machine is at `address`. -/
def reconcileMachine (w : World σ) (name : String) (server : Server) (address : String)
    (now : Timestamp) : Reconciled × World σ :=
  let observed := server.statusOrDefault
  let desired := server.spec.desired
  let (reachable, w) := w.probe address
  match observed.observe reachable now with
  | (.settled, status) => w.conclude name server.version? observed status (.ok none)
  | (.waiting, status) => w.conclude name server.version? observed status (.ok (some w.requeue))
  | (.observed, status) =>
    if status.current = desired then w.conclude name server.version? observed status (.ok none)
    else
      let (result, w) := w.act server.spec desired
      w.conclude name server.version? observed (status.applyAction desired result)
        (match result with
          | .ok _ => .ok (some w.requeue)
          | .error e => .error (.powerAction e))

/-- Reconciles the record called `name`, without counting it. -/
def reconcileRecord (w : World σ) (name : String) (now : Timestamp) : Reconciled × World σ :=
  match w.store.get name with
  | none => (.ok none, w)
  | some server =>
    let observed := server.statusOrDefault
    match observed.precheck server.spec w.threshold with
    | .skip => (.ok none, w)
    | .frozen status => w.conclude name server.version? observed status (.ok none)
    | .missingAddress status =>
      w.conclude name server.version? observed status
        (.error (.invalidConfig (noAddressMessage name)))
    | .proceed address => w.reconcileMachine name server address now

/-- The label under which a reconciliation is counted. -/
def resultLabel : Reconciled → String
  | .ok (some _) => "requeued"
  | .ok none => "done"
  | .error e => e.label

/-- Reconciles the record called `name`. -/
def reconcile (w : World σ) (name : String) (now : Timestamp) : Reconciled × World σ :=
  let (result, w) := w.reconcileRecord name now
  (result, { w with metrics := w.metrics.recordReconciliation (resultLabel result) })

end World

end MetalPool
