import MetalPool.Text.Bytes
/-!
# Percent-encoded bytes

A `%` and two hexadecimal digits stand for one byte. A `%` without two digits
after it stands for itself, so that all bytes can be decoded.
-/

namespace MetalPool.Bytes

/-- The value of the hexadecimal digit that a byte spells. -/
def digitValue? (b : UInt8) : Option Nat := hexDigit? (Char.ofNat b.toNat)

/-- The byte that two digits stand for. -/
def ofDigits? (high low : UInt8) : Option UInt8 := do
  return UInt8.ofNat ((← digitValue? high) * 16 + (← digitValue? low))

def percentDecode : Bytes → Bytes
  | [] => []
  | [b] => [b]
  | [b, c] => [b, c]
  | b :: high :: low :: rest =>
    match if b = 0x25 then ofDigits? high low else none with
    | some decoded => decoded :: percentDecode rest
    | none => b :: percentDecode (high :: low :: rest)

example : percentDecode (ofText "a%41%4g%") = ofText "aA%4g%" := by decide +kernel

end MetalPool.Bytes
