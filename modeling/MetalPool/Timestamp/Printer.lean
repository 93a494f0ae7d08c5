import MetalPool.Text.Decimal
import MetalPool.Timestamp.Basic
/-!
# Instants as text

The form of RFC 3339 with `T` and `Z`. The fraction has no, three, six or nine
digits, the fewest that are exact.
-/

namespace MetalPool.Timestamp

open Text (padded lastDigits)

/-- Four digits, or a sign and at least four outside 0 to 9999. -/
def yearText (year : Int) : String :=
  if 0 ≤ year ∧ year ≤ 9999 then .ofList (lastDigits 4 year.toNat)
  else (if year < 0 then "-" else "+") ++ padded 4 year.natAbs

def twoDigits (n : Nat) : String := .ofList (lastDigits 2 n)

def dateText (d : Date) : String :=
  yearText d.year ++ "-" ++ twoDigits d.month ++ "-" ++ twoDigits d.day

/-- Date and time down to the second; a leap second is number 60. -/
def toSecondsText (t : Timestamp) : String :=
  let second := t.second % 60 + (if t.nano < 1000000000 then 0 else 1)
  dateText t.date ++ "T" ++ twoDigits (t.second / 3600) ++ ":" ++ twoDigits (t.second / 60 % 60) ++
    ":" ++ twoDigits second

/-- The fraction of a second with its point. -/
def fractionText (nano : Nat) : String :=
  if nano = 0 then ""
  else if nano % 1000000 = 0 then "." ++ .ofList (lastDigits 3 (nano / 1000000))
  else if nano % 1000 = 0 then "." ++ .ofList (lastDigits 6 (nano / 1000))
  else "." ++ .ofList (lastDigits 9 nano)

/-- The exact form. -/
def toText (t : Timestamp) : String := t.toSecondsText ++ fractionText (t.nano % 1000000000) ++ "Z"

/-- The form without a fraction, which is cut off. -/
def toWholeSecondsText (t : Timestamp) : String := t.toSecondsText ++ "Z"

end MetalPool.Timestamp
