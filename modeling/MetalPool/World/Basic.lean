import MetalPool.Metrics.Basic
import MetalPool.Plant
import MetalPool.Store.Memory
/-!
# A controller and what it works on

The records, the machines and the counters of one controller, with its two
settings. Everything the controller does is a function on this. The machines are
reached through backends of any kind; in a run of the whole controller they are a
`Plant`.
-/

namespace MetalPool

structure World (σ : Type := Plant) where
  store : Store := {}
  /-- The backends that reach the machines. -/
  plant : σ
  metrics : Metrics := {}
  /-- Failures in a row after which a machine is given up. -/
  threshold : UInt32
  /-- When to look again at a machine in transition. -/
  requeue : Span
deriving Repr

namespace World

/-- A world with records put in one after the other, where the addresses answer. -/
def start (servers : List Server) (reachable : List String) (threshold : UInt32) (requeue : Span) :
    World where
  store := servers.foldl Store.insert {}
  plant := reachable.foldl (fun p address => p.setReachable address true) {}
  threshold := threshold
  requeue := requeue

/-- Holds a session with the records. -/
def hold {α : Type} (w : World) (session : Session α) : α × World :=
  let (a, store) := session.run w.store
  (a, { w with store })

end World

end MetalPool
