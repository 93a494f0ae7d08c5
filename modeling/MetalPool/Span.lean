import MetalPool.Text.Decimal
/-!
# Lengths of time and the points they lead to

A `Span` holds nanoseconds, as many as fit 64 bits of whole seconds. An
`Instant` is a point on a clock that only moves forward, in nanoseconds from
some start; its whole seconds fit 63 bits and a sign. Sums outside those ranges
are refused, they never wrap.
-/

namespace MetalPool

/-- A sum of times that no clock value can hold. -/
inductive TimeOverflow where
  | span
  | instant
deriving DecidableEq, Repr

def TimeOverflow.message : TimeOverflow → String
  | .span => "overflow when adding durations"
  | .instant => "overflow when adding duration to instant"

structure Span where
  nanos : Nat
deriving DecidableEq, Repr, Inhabited

namespace Span

def ofSeconds (n : Nat) : Span := ⟨n * 1000000000⟩
def ofMillis (n : Nat) : Span := ⟨n * 1000000⟩

def wholeSeconds (d : Span) : Nat := d.nanos / 1000000000
def wholeMillis (d : Span) : Nat := d.nanos / 1000000

/-- The most whole seconds a span may have. -/
def maxSeconds : Nat := 18446744073709551615

/-- The sum, if its whole seconds fit. -/
def add? (a b : Span) : Except TimeOverflow Span :=
  let sum : Span := ⟨a.nanos + b.nanos⟩
  if sum.wholeSeconds ≤ maxSeconds then .ok sum else .error .span

@[simp] theorem wholeSeconds_ofSeconds (n : Nat) : (ofSeconds n).wholeSeconds = n := by
  simp [ofSeconds, wholeSeconds]

theorem add?_ofSeconds (n m : Nat) :
    (ofSeconds n).add? (ofSeconds m) =
      if n + m ≤ maxSeconds then .ok (ofSeconds (n + m)) else .error .span := by
  have hsum : (⟨(ofSeconds n).nanos + (ofSeconds m).nanos⟩ : Span) = ofSeconds (n + m) := by
    simp only [ofSeconds, Nat.add_mul]
  simp only [add?, hsum, wholeSeconds_ofSeconds]

/-- A number of units with a fraction of `width` digits, zeros at its end left out. -/
def decimalText (whole fraction width : Nat) (unit : String) : String :=
  let digits := ((Text.lastDigits width fraction).reverse.dropWhile (· == '0')).reverse
  whole.repr ++ (if digits.isEmpty then "" else "." ++ .ofList digits) ++ unit

/-- In the largest of the units s, ms, µs and ns that is not more than the span. -/
def text (d : Span) : String :=
  if 1000000000 ≤ d.nanos then decimalText (d.nanos / 1000000000) (d.nanos % 1000000000) 9 "s"
  else if 1000000 ≤ d.nanos then decimalText (d.nanos / 1000000) (d.nanos % 1000000) 6 "ms"
  else if 1000 ≤ d.nanos then decimalText (d.nanos / 1000) (d.nanos % 1000) 3 "µs"
  else decimalText d.nanos 0 0 "ns"

example : (Span.mk 1500).text = "1.5µs" := by decide
example : (Span.mk 20000000001).text = "20.000000001s" := by decide
example : (Span.mk 0).text = "0ns" := by decide

end Span

structure Instant where
  nanos : Int
deriving DecidableEq, Repr, Inhabited

namespace Instant

def ofMillis (n : Int) : Instant := ⟨n * 1000000⟩
def ofSeconds (n : Nat) : Instant := ⟨n * 1000000000⟩

/-- The most whole seconds an instant may have. -/
def maxSeconds : Int := 9223372036854775807

/-- The instant a span later, if its whole seconds fit. -/
def add? (t : Instant) (d : Span) : Except TimeOverflow Instant :=
  let sum : Int := t.nanos + d.nanos
  if sum / 1000000000 ≤ maxSeconds then .ok ⟨sum⟩ else .error .instant

/-- The span from `earlier` to `t`, nothing if `t` comes first. -/
def since (t earlier : Instant) : Span := ⟨(t.nanos - earlier.nanos).toNat⟩

end Instant

end MetalPool
