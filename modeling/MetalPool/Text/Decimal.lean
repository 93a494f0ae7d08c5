/-!
# Decimal digits

Reading an unsigned number that must stay below a bound, and writing a number
with leading zeros.
-/

namespace MetalPool.Text

/-- Why a text is no unsigned number in range. -/
inductive NumberError where
  | empty
  | invalidDigit
  | tooLarge
deriving DecidableEq, Repr

def NumberError.message : NumberError → String
  | .empty => "cannot parse integer from empty string"
  | .invalidDigit => "invalid digit found in string"
  | .tooLarge => "number too large to fit in target type"

/-- The value of an ASCII digit. -/
def digit? (c : Char) : Option Nat :=
  if '0' ≤ c ∧ c ≤ '9' then some (c.toNat - '0'.toNat) else none

def isDigit (c : Char) : Bool := (digit? c).isSome

/-- The number that digits write. -/
def valueOf (digits : List Char) : Nat :=
  digits.foldl (fun n c => n * 10 + (digit? c).getD 0) 0

/-- Continues a number that stands at `n`. The first fault from the left counts:
a character that is no digit, or a digit that takes the number past `max`. -/
def readDigits (max : Nat) : Nat → List Char → Except NumberError Nat
  | n, [] => .ok n
  | n, c :: rest =>
    match digit? c with
    | none => .error .invalidDigit
    | some d => if n * 10 + d ≤ max then readDigits max (n * 10 + d) rest else .error .tooLarge

/-- An unsigned number up to `max`: one `+` at most, then one or more digits. -/
def readNumber (max : Nat) (s : String) : Except NumberError Nat :=
  match s.toList with
  | [] => .error .empty
  | ['+'] => .error .invalidDigit
  | '+' :: rest => readDigits max 0 rest
  | cs => readDigits max 0 cs

/-- The last `width` decimal digits of `n`. -/
def lastDigits : Nat → Nat → List Char
  | 0, _ => []
  | width + 1, n => lastDigits width (n / 10) ++ [Nat.digitChar (n % 10)]

/-- `n` in decimal, with zeros in front up to `width` digits. -/
def padded (width n : Nat) : String :=
  let digits := n.repr
  .ofList (List.replicate (width - digits.length) '0') ++ digits

example : readNumber 65535 "+0080" = .ok 80 := by rfl
example : readNumber 65535 "65536" = .error .tooLarge := by rfl
example : readNumber 65535 "999999x" = .error .tooLarge := by rfl
example : readNumber 65535 "-1" = .error .invalidDigit := by rfl

end MetalPool.Text
