import MetalPool.SortedMap
import MetalPool.Span
/-!
# The requeue gate

The controller's own status writes are reported back to it. After a
reconciliation that asked to be run again later, further reports on the record
at the same generation wait until then; another generation goes through.
-/

namespace MetalPool

/-- Until when a record at a generation waits. -/
structure GateEntry where
  generation : Option Int64
  due : Instant
deriving DecidableEq, Repr

structure Gate where
  entries : SortedMap GateEntry := .empty
deriving DecidableEq, Repr, Inhabited

namespace Gate

/-- How long a record still waits, if it does. -/
def remaining (g : Gate) (key : String) (generation : Option Int64) (now : Instant) :
    Option Span :=
  match g.entries.get? key with
  | none => none
  | some e =>
    if e.generation = generation ∧ now.nanos < e.due.nanos then some (e.due.since now) else none

/-- The entries still waiting at `now`. -/
def waiting (g : Gate) (now : Instant) : SortedMap GateEntry :=
  g.entries.filter fun _ e => now.nanos < e.due.nanos

/-- Notes what a reconciliation asked for. Entries that are due are dropped, also
when the new one is too far away to be noted. -/
def record (g : Gate) (key : String) (generation : Option Int64) (requeue : Option Span)
    (now : Instant) : Except TimeOverflow Unit × Gate :=
  let kept := g.waiting now
  match requeue with
  | none => (.ok (), { entries := kept.erase key })
  | some after =>
    match now.add? after with
    | .ok due => (.ok (), { entries := kept.insert key ⟨generation, due⟩ })
    | .error e => (.error e, { entries := kept })

end Gate

end MetalPool
