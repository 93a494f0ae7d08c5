import MetalPool.Wire.Varint
/-!
# Fields of a message

A message is a sequence of fields, each a number with the kind of its payload,
then the payload. `readFields` splits the bytes of a message into them. Groups
are passed over; how deep they nest is limited.
-/

namespace MetalPool.Wire

inductive Payload where
  | varint (n : Nat)
  | fixed64
  | delimited (bs : Bytes)
  | group
  | fixed32
deriving DecidableEq, Repr

/-- How deep messages and groups may nest. -/
def maxDepth : Nat := 100

/-- The kinds of payload, as the low bits of a key give them. -/
inductive Kind where
  | varint
  | fixed64
  | delimited
  | groupStart
  | groupEnd
  | fixed32
deriving DecidableEq, Repr

def Kind.ofCode? : Nat → Option Kind
  | 0 => some .varint
  | 1 => some .fixed64
  | 2 => some .delimited
  | 3 => some .groupStart
  | 4 => some .groupEnd
  | 5 => some .fixed32
  | _ => none

/-- A field's number, from 1 on, and the kind of its payload. -/
def readKey (bs : Bytes) : Option (Nat × Kind × Bytes) := do
  let (key, bs) ← readVarint bs
  let kind ← Kind.ofCode? (key % 8)
  if key < 4294967296 ∧ 1 ≤ key / 8 then some (key / 8, kind, bs) else none

/-- The bytes after the first `n`, if there are so many. -/
def skip? (n : Nat) (bs : Bytes) : Option Bytes := if n ≤ bs.length then some (bs.drop n) else none

/-- Bytes with their number in front. -/
def readDelimited (bs : Bytes) : Option (Bytes × Bytes) := do
  let (n, bs) ← readVarint bs
  if n ≤ bs.length then some (bs.take n, bs.drop n) else none

/-- The bytes after a group, of which `depth` levels may be open. The fuel
bounds the fields in it, and each takes a byte at least. -/
def skipGroup : Nat → Nat → Nat → Bytes → Option Bytes
  | 0, _, _, _ => none
  | _, 0, _, _ => none
  | fuel + 1, depth + 1, number, bs => do
    let (inner, kind, bs) ← readKey bs
    if kind = .groupEnd then if inner = number then some bs else none
    else if depth = 0 then none
    else
      let bs ← match kind with
        | .varint => (readVarint bs).map Prod.snd
        | .fixed64 => skip? 8 bs
        | .delimited => (readDelimited bs).map Prod.snd
        | .groupStart => skipGroup fuel depth inner bs
        | .fixed32 => skip? 4 bs
        | .groupEnd => none
      skipGroup fuel (depth + 1) number bs

/-- The field at the head of the bytes. A field that holds an entry of a map is
read as delimited bytes whatever its key says. -/
def readField (isMap : Nat → Bool) (depth : Nat) (bs : Bytes) :
    Option ((Nat × Payload) × Bytes) := do
  let (number, kind, bs) ← readKey bs
  if isMap number then
    let (payload, bs) ← readDelimited bs
    return ((number, .delimited payload), bs)
  else
    match kind with
    | .varint =>
      let (n, bs) ← readVarint bs
      return ((number, .varint n), bs)
    | .fixed64 => return ((number, .fixed64), ← skip? 8 bs)
    | .delimited =>
      let (payload, bs) ← readDelimited bs
      return ((number, .delimited payload), bs)
    | .groupStart => return ((number, .group), ← skipGroup bs.length depth number bs)
    | .groupEnd => none
    | .fixed32 => return ((number, .fixed32), ← skip? 4 bs)

/-- The fields of a message. Each takes a byte at least, so the number of bytes
is fuel enough. -/
def readFieldsWithin (isMap : Nat → Bool) (depth : Nat) :
    Nat → Bytes → Option (List (Nat × Payload))
  | _, [] => some []
  | 0, _ => none
  | fuel + 1, bs => do
    let (field, bs) ← readField isMap depth bs
    let fields ← readFieldsWithin isMap depth fuel bs
    return field :: fields

def readFields (isMap : Nat → Bool) (depth : Nat) (bs : Bytes) : Option (List (Nat × Payload)) :=
  readFieldsWithin isMap depth bs.length bs

/-! ## Writing -/

def writeKey (number code : Nat) : Bytes := writeVarint (number * 8 + code)

def writeDelimited (number : Nat) (payload : Bytes) : Bytes :=
  writeKey number 2 ++ writeVarint payload.length ++ payload

def writeNumber (number n : Nat) : Bytes := writeKey number 0 ++ writeVarint n

end MetalPool.Wire
