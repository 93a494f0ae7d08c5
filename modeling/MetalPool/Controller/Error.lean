import MetalPool.Pool.Error
import MetalPool.Power.Error
/-!
# Failures of the controller
-/

namespace MetalPool

inductive ControllerError where
  | kube (text : String)
  | store (error : StoreError)
  /-- The process or a record is not configured as it has to be. -/
  | invalidConfig (text : String)
  | powerAction (error : ActionError)
  | provider (error : PoolError)
  | metrics (text : String)
  | io (text : String)
  | watch (text : String)
deriving DecidableEq, Repr

namespace ControllerError

def message : ControllerError → String
  | .kube text => "Kubernetes error: " ++ text
  | .store error => "Store error: " ++ error.message
  | .invalidConfig text => "Invalid configuration: " ++ text
  | .powerAction error => "Power action failed: " ++ error.message
  | .provider error => "CloudProvider error: " ++ error.message
  | .metrics text => "Metrics error: " ++ text
  | .io text => "IO error: " ++ text
  | .watch text => "Resource watch failed: " ++ text

/-- The label under which the failure is counted. -/
def label : ControllerError → String
  | .kube _ => "kube"
  | .store _ => "store"
  | .invalidConfig _ => "invalid_config"
  | .powerAction _ => "power_action"
  | .provider _ => "provider"
  | .metrics _ => "metrics"
  | .io _ => "io"
  | .watch _ => "watch"

end ControllerError

end MetalPool
