import MetalPool.Reconcile
import MetalPool.Watch.Gate
import MetalPool.Watch.Retries
/-!
# The watcher's turns

Each report on a record comes to the watcher as a turn: the turn is put off as
long as the gate holds the record back, or else the record is reconciled. Either
way the watcher asks for the delay after which the record is to come again.
-/

namespace MetalPool

/-- The delay after a reconciliation without error: the requeue it asked for, or
else the time to the next look at every record. -/
def nextRun (requeue : Option Span) (resync : Span) : Span := requeue.getD resync

structure Watcher where
  gate : Gate := {}
  retries : Retries := {}
  resync : Span
deriving Repr

/-- The times of a turn: when it starts and ends, and the date when it starts. -/
structure TurnTimes where
  start : Instant
  finish : Instant
  date : Timestamp
deriving Repr

/-- What came of a turn. -/
structure Turn where
  /-- The result of the reconciliation, if the gate let the record through. -/
  result : Option Reconciled
  /-- When the record is to come again. -/
  delay : Span
deriving Repr

namespace Watcher

/-- A turn that the gate puts off by `wait`. -/
def defer (w : Watcher) (name : String) (wait : Span) : Turn × Watcher :=
  ({ result := none, delay := wait }, { w with retries := w.retries.reset name })

/-- Notes in the gate at `now` what a reconciliation asked for. It fails only where
that is too far away to be noted. -/
def note (w : Watcher) (name : String) (generation : Option Int64) (now : Instant)
    (result : Reconciled) : Except TimeOverflow Unit × Watcher :=
  let requeue : Option Span :=
    match result with
    | .ok requeue => requeue
    | .error _ => none
  let (noted, gate) := w.gate.record name generation requeue now
  (noted, { w with gate })

/-- Asks at `now` for the delay after a reconciliation. -/
def answer (w : Watcher) (name : String) (now : Instant) (result : Reconciled) : Turn × Watcher :=
  match result with
  | .ok requeue =>
    ({ result := some result, delay := nextRun requeue w.resync },
      { w with retries := w.retries.reset name })
  | .error _ =>
    let (delay, retries) := w.retries.next name now
    ({ result := some result, delay }, { w with retries })

/-- Ends the turn of a reconciliation at `now`. -/
def settle (w : Watcher) (name : String) (generation : Option Int64) (now : Instant)
    (result : Reconciled) : Except TimeOverflow Turn × Watcher :=
  match w.note name generation now result with
  | (.error overflow, w) => (.error overflow, w)
  | (.ok _, w) =>
    let (turn, w) := w.answer name now result
    (.ok turn, w)

/-- The turn of the record called `name`, reported at `generation`. -/
def turn (w : Watcher) (world : World) (name : String) (generation : Option Int64)
    (times : TurnTimes) : Except TimeOverflow Turn × Watcher × World :=
  match w.gate.remaining name generation times.start with
  | some wait =>
    let (turn, w) := w.defer name wait
    (.ok turn, w, world)
  | none =>
    let (result, world) := world.reconcile name times.date
    let (turn, w) := w.settle name generation times.finish result
    (turn, w, world)

end Watcher

end MetalPool
