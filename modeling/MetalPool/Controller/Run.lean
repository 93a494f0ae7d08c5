import MetalPool.Config
import MetalPool.Store.Cluster
/-!
# A run of the controller

The controller reads its configuration, lists the records once, and then runs
its tasks until it is told to stop or one of them ends. A task that ends of its
own ends the run with an error.
-/

namespace MetalPool

inductive ControllerTask where
  | watcher
  | pool
  | metrics
deriving DecidableEq, Repr

namespace ControllerTask

def name : ControllerTask → String
  | .watcher => "Server watcher"
  | .pool => "CloudProvider gRPC server"
  | .metrics => "Metrics server"

/-- The failure of the run when the task ends. -/
def failure (task : ControllerTask) : Except ControllerError Unit → ControllerError
  | .ok _ => .watch (task.name ++ " exited unexpectedly")
  | .error e => .watch (task.name ++ " error: " ++ e.message)

end ControllerTask

namespace Controller

/-- The address is that of another machine. -/
def notOwnAddress : String := "Cannot assign requested address (os error 99)"

/-- How the endpoint for counters starts. -/
def serveMetrics (config : Config) (host : Host) : Except ControllerError Unit :=
  if host.canListen config.metricsAddress then .ok () else .error (.io notOwnAddress)

/-- The failure of a task that does not start, if there is one. -/
def firstFailure? (config : Config) (host : Host) : Option ControllerError :=
  match config.listener.serve host with
  | .error e => some (ControllerTask.pool.failure (.error (.provider e)))
  | .ok _ =>
    match serveMetrics config host with
    | .error e => some (ControllerTask.metrics.failure (.error e))
    | .ok _ => none

/-- How a run ends where the first list of records is answered by `reply`. Being
told to stop at once comes before the failure of a task. None stands for a run
that does not end. -/
def run (config : Config) (host : Host) (reply : ApiReply) (toldToStop : Bool) :
    Option (Except ControllerError Unit) :=
  match Cluster.answer .list reply with
  | .error e => some (.error (.store e))
  | .ok _ => if toldToStop then some (.ok ()) else (firstFailure? config host).map .error

end Controller

end MetalPool
