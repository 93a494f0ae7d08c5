import MetalPool.Text.Blank
import MetalPool.Text.Decimal
import MetalPool.Timestamp.Basic
/-!
# Text to instant

RFC 3339 read generously: blanks around the parts of the date, of the time and
of the offset, fields of fewer digits, a signed year of any length, a fraction
of any length (cut after nine digits), `t` or a blank for `T`, and `z` or `UTC`
for `Z`. The offset is taken off, so what is read is in UTC.
-/

namespace MetalPool.Timestamp

open Text (isBlank isDigit valueOf dropBlanks)

/-- A number of one to `width` digits, and the text after it. -/
def readField? (width : Nat) (cs : List Char) : Option (Nat × List Char) :=
  match (cs.take width).takeWhile isDigit with
  | [] => none
  | digits => some (valueOf digits, cs.drop digits.length)

/-- The year: up to four digits, or a sign and any number of them. -/
def readYear? (cs : List Char) : Option (Int × List Char) :=
  match cs with
  | '-' :: rest => do
    let (n, rest) ← readField? rest.length rest
    return (-(n : Int), rest)
  | '+' :: rest => do
    let (n, rest) ← readField? rest.length rest
    return ((n : Int), rest)
  | cs => do
    let (n, rest) ← readField? 4 cs
    return ((n : Int), rest)

/-- The text after blanks and the character `c`. -/
def skipMark? (c : Char) (cs : List Char) : Option (List Char) :=
  match dropBlanks cs with
  | c' :: rest => if c' = c then some rest else none
  | [] => none

/-- A fraction of a second in nanoseconds, nothing if there is no point. -/
def readFraction? : List Char → Option (Nat × List Char)
  | '.' :: cs =>
    match (cs.take 9).takeWhile isDigit with
    | [] => none
    | digits =>
      some (valueOf (digits ++ List.replicate (9 - digits.length) '0'), cs.dropWhile isDigit)
  | cs => some (0, cs)

/-- Two digits of an offset. -/
def readPair? : List Char → Option (Nat × List Char)
  | a :: b :: rest => if isDigit a && isDigit b then some (valueOf [a, b], rest) else none
  | _ => none

/-- The offset from UTC in seconds, with `Z` or `UTC` for none. -/
def readOffset? (cs : List Char) : Option (Int × List Char) :=
  match cs with
  | 'z' :: rest | 'Z' :: rest => some (0, rest)
  | sign :: rest =>
    if (cs.take 3).map Char.toUpper = ['U', 'T', 'C'] then some (0, cs.drop 3)
    else if sign = '+' ∨ sign = '-' ∨ sign = '−' then do
      let (hours, rest) ← readPair? rest
      let (minutes, rest) ← readPair? (rest.dropWhile fun c => c == ':' || isBlank c)
      if minutes < 60 ∧ hours < 24 then
        let seconds : Int := hours * 3600 + minutes * 60
        return (if sign = '+' then seconds else -seconds, rest)
      else none
    else none
  | [] => none

/-- The years that an instant may lie in. -/
def yearInRange (year : Int) : Bool := -262143 ≤ year && year ≤ 262142

/-- The instant that is `second` and `nano` into `date` where clocks are ahead
of UTC by `offset` seconds. Second 60 of a minute is its leap second. -/
def ofLocal? (date : Date) (hour minute second nano : Nat) (offset : Int) : Option Timestamp :=
  if h : hour < 24 ∧ minute < 60 ∧ second ≤ 60 ∧ nano < 1000000000 ∧ offset % 60 = 0 ∧
      -86400 < offset ∧ offset < 86400 then
    let wall : Nat := hour * 3600 + minute * 60 + min second 59
    let shifted : Int := wall - offset
    let date' := if shifted < 0 then date.previous else if shifted < 86400 then date else date.next
    if yearInRange date.year && yearInRange date'.year then
      some {
        date := date'
        second := (shifted % 86400).toNat
        nano := if second = 60 then nano + 1000000000 else nano
        second_valid := by omega
        nano_valid := by
          split
          · right; refine ⟨by omega, ?_⟩; rename_i h60; subst h60; omega
          · left; omega }
    else none
  else none

def readDate? (cs : List Char) : Option (Date × List Char) := do
  let (year, cs) ← readYear? (dropBlanks cs)
  let cs ← skipMark? '-' cs
  let (month, cs) ← readField? 2 (dropBlanks cs)
  let cs ← skipMark? '-' cs
  let (day, cs) ← readField? 2 (dropBlanks cs)
  return (← Date.of? year month day, cs)

/-- What may stand between date and time. -/
def skipSeparator? : List Char → Option (List Char)
  | c :: rest => if c = 't' ∨ c = 'T' ∨ c = ' ' then some rest else none
  | [] => none

/-- The instant that a text writes. -/
def parse? (s : String) : Option Timestamp := do
  let (date, cs) ← readDate? s.toList
  let cs ← skipSeparator? cs
  let (hour, cs) ← readField? 2 (dropBlanks cs)
  let cs ← skipMark? ':' cs
  let (minute, cs) ← readField? 2 (dropBlanks cs)
  let cs ← skipMark? ':' cs
  let (second, cs) ← readField? 2 (dropBlanks cs)
  let (nano, cs) ← readFraction? cs
  let (offset, cs) ← readOffset? (dropBlanks cs)
  if (dropBlanks cs).isEmpty then ofLocal? date hour minute second nano offset else none

end MetalPool.Timestamp
