/-!
# Bytes and text

Bytes as a list, their hexadecimal form, and the UTF-8 form of a text. A text
has one UTF-8 form; bytes that are no such form are refused (`ofUtf8?`), refused
with the place of the first fault (`readUtf8`), or read with U+FFFD in place of
each maximal part that starts no character (`ofUtf8Lossy`).
-/

namespace MetalPool

abbrev Bytes := List UInt8

namespace Bytes

/-! ## Hexadecimal -/

/-- The value of a hexadecimal digit in either case. -/
def hexDigit? (c : Char) : Option Nat :=
  if '0' ≤ c ∧ c ≤ '9' then some (c.toNat - '0'.toNat)
  else if 'a' ≤ c ∧ c ≤ 'f' then some (c.toNat - 'a'.toNat + 10)
  else if 'A' ≤ c ∧ c ≤ 'F' then some (c.toNat - 'A'.toNat + 10)
  else none

/-- Two lower-case digits, the high one first. -/
def hexPair (b : UInt8) : List Char :=
  [Nat.digitChar (b.toNat / 16), Nat.digitChar (b.toNat % 16)]

/-- Two lower-case digits a byte. -/
def toHex (bs : Bytes) : String := .ofList (bs.flatMap hexPair)

/-- Digits read in pairs, the high one first. -/
def ofHexDigits? : List Char → Option Bytes
  | [] => some []
  | [_] => none
  | h :: l :: rest => do
    let high ← hexDigit? h
    let low ← hexDigit? l
    let bs ← ofHexDigits? rest
    return UInt8.ofNat (high * 16 + low) :: bs

def ofHex? (s : String) : Option Bytes := ofHexDigits? s.toList

example : toHex [0, 171, 255] = "00abff" := by decide
example : ofHex? "00Abff" = some [0, 171, 255] := by decide

/-! ## UTF-8 -/

/-- The UTF-8 form of a text. -/
def ofText (s : String) : Bytes := s.toByteArray.data.toList

/-- The text whose UTF-8 form the bytes are. -/
def ofUtf8? (bs : Bytes) : Option String := String.fromUTF8? ⟨bs.toArray⟩

theorem ofUtf8?_ofText (s : String) : ofUtf8? (ofText s) = some s := by
  simp [ofUtf8?, ofText, String.fromUTF8?, String.fromUTF8, s.isValidUTF8]

/-- A text has a byte for each of its characters at least. -/
theorem length_le_ofText (cs : List Char) : cs.length ≤ (ofText (.ofList cs)).length := by
  change cs.length ≤ (String.ofList cs).toByteArray.size
  rw [String.toByteArray_ofList]
  induction cs with
  | nil => exact Nat.zero_le _
  | cons c cs ih =>
    have hc : 0 < [c].utf8Encode.size := by
      rw [List.utf8Encode_singleton]
      simpa using c.utf8Size_pos
    rw [List.utf8Encode_cons, ByteArray.size_append, List.length_cons]
    omega

/-- How many continuation bytes follow a leading byte, and the range of the first of them. -/
def continuation (b : UInt8) : Option (Nat × UInt8 × UInt8) :=
  if 0xC2 ≤ b ∧ b ≤ 0xDF then some (1, 0x80, 0xBF)
  else if b = 0xE0 then some (2, 0xA0, 0xBF)
  else if b = 0xED then some (2, 0x80, 0x9F)
  else if 0xE1 ≤ b ∧ b ≤ 0xEF then some (2, 0x80, 0xBF)
  else if b = 0xF0 then some (3, 0x90, 0xBF)
  else if 0xF1 ≤ b ∧ b ≤ 0xF3 then some (3, 0x80, 0xBF)
  else if b = 0xF4 then some (3, 0x80, 0x8F)
  else none

/-- Reads `n` continuation bytes, the first between `low` and `high`, onto the
bits in `acc`: the code point, or none where a byte does not fit, and the bytes
not used. -/
def continueCode : Nat → UInt8 → UInt8 → Nat → Bytes → Option Nat × Bytes
  | 0, _, _, acc, bs => (some acc, bs)
  | _ + 1, _, _, _, [] => (none, [])
  | n + 1, low, high, acc, b :: bs =>
    if low ≤ b ∧ b ≤ high then continueCode n 0x80 0xBF (acc * 64 + b.toNat % 64) bs
    else (none, b :: bs)

theorem length_continueCode (n : Nat) (low high : UInt8) (acc : Nat) (bs : Bytes) :
    (continueCode n low high acc bs).2.length ≤ bs.length := by
  induction n generalizing low high acc bs with
  | zero => simp [continueCode]
  | succ n ih =>
    match bs with
    | [] => simp [continueCode]
    | b :: bs =>
      rw [continueCode]
      split
      · exact Nat.le_succ_of_le (ih ..)
      · exact Nat.le_refl _

/-- What stands for bytes that are no text. -/
def replacement : Char := '\uFFFD'

/-- The characters of the bytes, with U+FFFD for each maximal run that starts no character. -/
def lossyChars : Bytes → List Char
  | [] => []
  | b :: bs =>
    if b < 0x80 then Char.ofNat b.toNat :: lossyChars bs
    else
      match continuation b with
      | none => replacement :: lossyChars bs
      | some (n, low, high) =>
        match h : continueCode n low high (b.toNat % (64 >>> n)) bs with
        | (code, rest) =>
          have : rest.length ≤ bs.length := by
            have := length_continueCode n low high (b.toNat % (64 >>> n)) bs
            rwa [h] at this
          (code.elim replacement Char.ofNat) :: lossyChars rest
termination_by bs => bs.length

/-- The text of the bytes, with U+FFFD where they are none. -/
def ofUtf8Lossy (bs : Bytes) : String := .ofList (lossyChars bs)

/-- Where bytes stop being text. -/
structure Utf8Fault where
  /-- How many bytes before the fault are text. -/
  index : Nat
  /-- How long the part is that starts no character; none where the bytes end
  inside a character. -/
  length : Option Nat
deriving DecidableEq, Repr

def Utf8Fault.message (fault : Utf8Fault) : String :=
  match fault.length with
  | some length =>
    "invalid utf-8 sequence of " ++ length.repr ++ " bytes from index " ++ fault.index.repr
  | none => "incomplete utf-8 byte sequence from index " ++ fault.index.repr

/-- The first fault of bytes that follow `index` others. Bytes without any end
where a character is expected. -/
def faultFrom (index : Nat) : Bytes → Utf8Fault
  | [] => ⟨index, none⟩
  | b :: bs =>
    if b < 0x80 then faultFrom (index + 1) bs
    else
      match continuation b with
      | none => ⟨index, some 1⟩
      | some (n, low, high) =>
        match h : continueCode n low high 0 bs with
        | (some _, rest) =>
          have : rest.length ≤ bs.length := by
            have := length_continueCode n low high 0 bs
            rwa [h] at this
          faultFrom (index + n + 1) rest
        | (none, []) => ⟨index, none⟩
        | (none, _ :: unread) => ⟨index, some (bs.length - unread.length)⟩
termination_by bs => bs.length

/-- The text whose UTF-8 form the bytes are, or where they stop being one. -/
def readUtf8 (bs : Bytes) : Except Utf8Fault String :=
  match ofUtf8? bs with
  | some s => .ok s
  | none => .error (faultFrom 0 bs)

end Bytes

end MetalPool
