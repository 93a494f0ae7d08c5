import MetalPool.Power.Tool
/-!
# Probing machines

A machine is reachable if one of a few pings is answered. Pings that cannot be
run or do not end count as not answered.
-/

namespace MetalPool

structure PingProbe where
  attempts : Nat := 3
  /-- How long one ping waits for its answer. -/
  attemptTimeout : Span := .ofSeconds 2
  retryDelay : Span := .ofMillis 500
deriving DecidableEq, Repr

namespace PingProbe

def invocation (p : PingProbe) (address : String) : Invocation where
  program := "ping"
  arguments := ["-c", "1", "-W", (max 1 p.attemptTimeout.wholeSeconds).repr, address]

/-- When a ping is given up: a second after it was to end by itself. -/
def deadline (p : PingProbe) : Except TimeOverflow Span := p.attemptTimeout.add? (.ofSeconds 1)

/-- Tries up to `n` times until a ping is answered, with a pause before each further try. -/
def search (p : PingProbe) (address : String) : Nat → Toolbox → Bool × Toolbox
  | 0, t => (false, t)
  | n + 1, t =>
    let (ending, t) := t.run (p.invocation address)
    if ending.succeeded then (true, t)
    else if n = 0 then (false, t)
    else p.search address n (t.pause p.retryDelay)

/-- Whether the machine answers. There is always one try at least. -/
def isReachable (p : PingProbe) (address : String) (t : Toolbox) : Bool × Toolbox :=
  p.search address (max 1 p.attempts) t

/-- Asks whether the machine answers, unless the deadline is no time that can be waited for. -/
def probe (p : PingProbe) (address : String) (t : Toolbox) :
    Except TimeOverflow (Bool × Toolbox) := do
  let _ ← p.deadline
  return p.isReachable address t

end PingProbe

end MetalPool
