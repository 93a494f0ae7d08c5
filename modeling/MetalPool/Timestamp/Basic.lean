/-!
# Calendar dates and instants

Dates of the Gregorian calendar, extended to years before it, and instants in
UTC down to the nanosecond. A leap second is the last second of its minute with
a nanosecond count of a whole second or more.
-/

namespace MetalPool

/-- Every fourth year, but of the full centuries only every fourth. -/
def isLeapYear (year : Int) : Bool :=
  year % 4 == 0 && (year % 100 != 0 || year % 400 == 0)

def daysInMonth (year : Int) (month : Nat) : Nat :=
  if month = 2 then if isLeapYear year then 29 else 28
  else if month = 4 ∨ month = 6 ∨ month = 9 ∨ month = 11 then 30
  else 31

theorem daysInMonth_pos (year : Int) (month : Nat) : 1 ≤ daysInMonth year month := by
  unfold daysInMonth
  repeat' split
  all_goals decide

structure Date where
  year : Int
  month : Nat
  day : Nat
  month_valid : 1 ≤ month ∧ month ≤ 12
  day_valid : 1 ≤ day ∧ day ≤ daysInMonth year month
deriving DecidableEq, Repr

namespace Date

/-- The date, if there is one. -/
def of? (year : Int) (month day : Nat) : Option Date :=
  if hm : 1 ≤ month ∧ month ≤ 12 then
    if hd : 1 ≤ day ∧ day ≤ daysInMonth year month then some ⟨year, month, day, hm, hd⟩ else none
  else none

/-- The day after. -/
def next (d : Date) : Date :=
  if h : d.day < daysInMonth d.year d.month then
    ⟨d.year, d.month, d.day + 1, d.month_valid, by omega, h⟩
  else if h : d.month < 12 then
    ⟨d.year, d.month + 1, 1, ⟨by omega, h⟩, by decide, daysInMonth_pos ..⟩
  else ⟨d.year + 1, 1, 1, by decide, by decide, daysInMonth_pos ..⟩

/-- The day before. -/
def previous (d : Date) : Date :=
  if h : 1 < d.day then
    ⟨d.year, d.month, d.day - 1, d.month_valid, by omega, by have := d.day_valid.2; omega⟩
  else if h : 1 < d.month then
    ⟨d.year, d.month - 1, daysInMonth d.year (d.month - 1),
      ⟨by omega, by have := d.month_valid.2; omega⟩, daysInMonth_pos .., Nat.le_refl _⟩
  else ⟨d.year - 1, 12, 31, by decide, by decide, by simp [daysInMonth]⟩

/-- The date a number of days later. -/
def addDays (d : Date) : Nat → Date
  | 0 => d
  | n + 1 => (d.addDays n).next

end Date

/-- An instant in UTC. -/
structure Timestamp where
  date : Date
  /-- Seconds since midnight. -/
  second : Nat
  nano : Nat
  second_valid : second < 86400
  nano_valid : nano < 1000000000 ∨ (nano < 2000000000 ∧ second % 60 = 59)
deriving DecidableEq, Repr

namespace Timestamp

/-- The instant without its fraction of a second. -/
def truncate (t : Timestamp) : Timestamp where
  date := t.date
  second := t.second
  nano := if t.nano < 1000000000 then 0 else 1000000000
  second_valid := t.second_valid
  nano_valid := by
    have := t.nano_valid
    split
    · left; decide
    · right; omega

/-- The start of a day. -/
def midnight (d : Date) : Timestamp := ⟨d, 0, 0, by decide, .inl (by decide)⟩

/-- The instant `n` seconds later; a leap second counts as the second it extends. -/
def addSeconds (t : Timestamp) (n : Nat) : Timestamp where
  date := t.date.addDays ((t.second + n) / 86400)
  second := (t.second + n) % 86400
  nano := t.nano % 1000000000
  second_valid := Nat.mod_lt _ (by decide)
  nano_valid := .inl (Nat.mod_lt _ (by decide))

/-- The instant as a clock shows it that knows no leap seconds: a leap second is
the first second after it. -/
def onClock (t : Timestamp) : Timestamp := t.addSeconds (t.nano / 1000000000)

end Timestamp

end MetalPool
