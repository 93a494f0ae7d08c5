import MetalPool.SortedMap
/-!
# Counters

How many reconciliations ended in each way and how many power actions of each
kind went well or not, and whether the controller is ready to serve.
-/

namespace MetalPool

/-- Power actions of one kind. -/
structure ActionTally where
  errors : Nat := 0
  successes : Nat := 0
deriving DecidableEq, Repr, Inhabited

structure Metrics where
  /-- Reconciliations by result. -/
  reconciliations : SortedMap Nat := .empty
  /-- Power actions by kind. -/
  actions : SortedMap ActionTally := .empty
  ready : Bool := false
deriving DecidableEq, Repr, Inhabited

namespace Metrics

def recordReconciliation (m : Metrics) (result : String) : Metrics :=
  { m with
    reconciliations :=
      m.reconciliations.insert result ((m.reconciliations.get? result).getD 0 + 1) }

def recordAction (m : Metrics) (kind : String) (success : Bool) : Metrics :=
  let tally := (m.actions.get? kind).getD {}
  let tally : ActionTally :=
    if success then { tally with successes := tally.successes + 1 }
    else { tally with errors := tally.errors + 1 }
  { m with actions := m.actions.insert kind tally }

end Metrics

end MetalPool
