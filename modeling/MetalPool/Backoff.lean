/-!
# Fibonacci backoff

Waits between tries that each are the sum of the two before, up to a most: with
1 and 10 minutes they are 1, 1, 2, 3, 5, 8, 10, 10, … minutes.
-/

namespace MetalPool

structure Backoff where
  /-- The first wait, in minutes. -/
  min : UInt64 := 1
  /-- The longest of the later waits. -/
  max : UInt64 := 10
  previous : UInt64 := 0
  current : UInt64 := min
deriving DecidableEq, Repr, Inhabited

namespace Backoff

/-- A backoff that starts with `min` minutes. -/
def start (min max : UInt64) : Backoff := { min, max }

/-- The wait in seconds, and the backoff after it. -/
def next (b : Backoff) : UInt64 × Backoff :=
  let sum := b.previous + b.current
  (b.current * 60,
    { b with previous := b.current, current := if sum ≤ b.max then sum else b.max })

/-- The backoff as it started. -/
def reset (b : Backoff) : Backoff := { b with previous := 0, current := b.min }

end Backoff

end MetalPool
