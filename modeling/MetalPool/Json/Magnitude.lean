import MetalPool.Text.Decimal
/-!
# Numbers that are too large

A number is carried in double precision, as 64 bits of its digits times a power
of ten. Digits after the last that fits the 64 bits only count toward the power.
Both factors are rounded, and their product, each to 53 bits with a half going
to the even neighbour; the number is too large if that leaves the range.
-/

namespace MetalPool.Json

/-- The nearest number of 53 bits followed by zeros; of two the even one. -/
def roundTo53 (n : Nat) : Nat :=
  let unit := 1 <<< (n.log2 - 52)
  let q := n / unit
  let twice := 2 * (n % unit)
  if unit < twice ∨ (twice = unit ∧ q % 2 = 1) then (q + 1) * unit else q * unit

/-- The largest power of ten below the end of the range. -/
def maxPower : Nat := 308

/-- The first number past the range. -/
def rangeEnd : Nat := 1 <<< 1024

/-- `digits` times ten to the `power` is past the range. -/
def isPastRange (digits : Nat) (power : Int) : Bool :=
  0 < digits && 0 ≤ power &&
    (maxPower < power ||
      rangeEnd ≤ roundTo53 (roundTo53 digits * roundTo53 (Nat.pow 10 power.toNat)))

/-- Puts digits after the number `n` as long as it fits 64 bits: the number and
the digits left over. -/
def absorb : Nat → List Char → Nat × List Char
  | n, [] => (n, [])
  | n, c :: rest =>
    let next := n * 10 + Text.valueOf [c]
    if next < 18446744073709551616 then absorb next rest else (n, c :: rest)

/-- A number given by the digits before and after the point, and its exponent,
is past the range. -/
def isTooLarge (whole fraction : List Char) (exponent : Int) : Bool :=
  let (digits, wholeLeft) := absorb 0 whole
  let (digits, fractionLeft) := absorb digits fraction
  isPastRange digits (exponent + wholeLeft.length + fractionLeft.length - fraction.length)

example : roundTo53 9007199254740993 = 9007199254740992 := by decide +kernel
example : isTooLarge ['1'] [] 308 = false ∧ isTooLarge ['1'] [] 309 = true := by decide +kernel
example : isTooLarge ['0'] ['0', '1'] 310 = false := by decide +kernel

end MetalPool.Json
