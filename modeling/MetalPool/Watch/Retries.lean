import MetalPool.Backoff
import MetalPool.SortedMap
import MetalPool.Span
/-!
# Waits after failures

One backoff for each record whose reconciliation failed. A success starts it
over; one that no failure touched for half an hour is dropped.
-/

namespace MetalPool

/-- A record's backoff and when it last failed. -/
structure Retry where
  backoff : Backoff
  last : Instant
deriving DecidableEq, Repr

structure Retries where
  entries : SortedMap Retry := .empty
deriving DecidableEq, Repr, Inhabited

namespace Retries

/-- How long a backoff is kept without a failure. -/
def keepFor : Span := .ofSeconds (30 * 60)

/-- The backoffs that a failure touched not long before `now`. -/
def fresh (r : Retries) (now : Instant) : SortedMap Retry :=
  r.entries.filter fun _ retry => (now.since retry.last).nanos < keepFor.nanos

/-- How long to wait after a failure at `now`. -/
def next (r : Retries) (key : String) (now : Instant) : Span × Retries :=
  let kept := r.fresh now
  let backoff := ((kept.get? key).map (·.backoff)).getD (.start 1 10)
  let (seconds, backoff) := backoff.next
  (.ofSeconds seconds.toNat, { entries := kept.insert key ⟨backoff, now⟩ })

/-- Starts a record's backoff over, if it has one. -/
def reset (r : Retries) (key : String) : Retries :=
  match r.entries.get? key with
  | none => r
  | some retry => { entries := r.entries.insert key { retry with backoff := retry.backoff.reset } }

end Retries

end MetalPool
