import MetalPool.Power.Command
/-!
# The power lifecycle

How a record's status follows its machine:

    offline ---- on command ----> pending ---- reachable ----> active
    active  ---- off command ---> draining --- unreachable --> offline

A pending machine that stays unreachable and a draining one that stays
reachable count failures. A record fails when the count reaches the threshold,
when it has no address, and when an action fails.

`precheck` decides whether the machine is probed at all, `observe` folds in
what the probe found, `applyAction` what the command came to.
-/

namespace MetalPool

/-- Failures in a row after which a machine is given up. -/
def defaultFailureThreshold : UInt32 := 3

/-- Outcome of the checks before the machine is probed. -/
inductive Precheck where
  /-- Failed already: leave it alone. -/
  | skip
  /-- The streak is at the threshold: failed from now on. -/
  | frozen (status : ServerStatus)
  /-- There is nothing to probe: failed from now on. -/
  | missingAddress (status : ServerStatus)
  | proceed (address : String)
deriving DecidableEq, Repr

/-- What a probe means for the round. -/
inductive Observation where
  /-- A transition is over, or there is none to wait for. -/
  | settled
  /-- The transition goes on: look again later. -/
  | waiting
  /-- The phase says what the machine is: compare it with the desired state. -/
  | observed
deriving DecidableEq, Repr

namespace ServerStatus

/-- The status of a machine given up for `reason`. -/
def fail (status : ServerStatus) (reason : String) : ServerStatus :=
  { status with phase := some .failed, message := reason }

def thresholdMessage (count : UInt32) : String :=
  "Failure threshold reached after " ++ count.toNat.repr ++ " consecutive failures"

def missingAddressMessage : String := "No address configured for server"

def precheck (status : ServerStatus) (spec : ServerSpec) (threshold : UInt32) : Precheck :=
  if status.phase = some .failed then .skip
  else if threshold ≤ status.failureCount then
    .frozen (status.fail (thresholdMessage status.failureCount))
  else
    match spec.address? with
    | some address => .proceed address
    | none => .missingAddress (status.fail missingAddressMessage)

/-- The status after a transition that ended in `phase`. -/
def settled (phase : Phase) : ServerStatus := { phase := some phase }

/-- One more failure in the streak, the first at `now` if it starts here. -/
def recordFailure (status : ServerStatus) (now : Timestamp) : ServerStatus :=
  { status with
    failingSince := some (status.failingSince.getD now)
    failureCount :=
      if status.failureCount = 4294967295 then status.failureCount else status.failureCount + 1 }

/-- The status after a probe. -/
def observe (status : ServerStatus) (reachable : Bool) (now : Timestamp) :
    Observation × ServerStatus :=
  match status.phase with
  | some .pending =>
    if reachable then (.settled, settled .active) else (.waiting, status.recordFailure now)
  | some .draining =>
    if reachable then (.waiting, status.recordFailure now) else (.settled, settled .offline)
  | some .active =>
    (.observed, if reachable then status else { status with phase := some .offline })
  | some .offline | none =>
    (.observed, { status with phase := some (if reachable then .active else .offline) })
  | some .failed => (.settled, status)

/-- The phase in which a command toward `desired` leaves a machine. -/
def transitionPhase : PowerState → Phase
  | .on => .pending
  | .off => .draining

def actionFailedMessage (e : ActionError) : String := "Power action failed: " ++ e.message

/-- The status after an action toward `desired`. -/
def applyAction (status : ServerStatus) (desired : PowerState) (result : Except ActionError Unit) :
    ServerStatus :=
  match result with
  | .ok _ => { status with phase := some (transitionPhase desired), message := "" }
  | .error e => status.fail (actionFailedMessage e)

end ServerStatus

end MetalPool
