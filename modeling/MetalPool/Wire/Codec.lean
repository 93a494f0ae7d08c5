import MetalPool.SortedMap
import MetalPool.Wire.Field
/-!
# Messages and their bytes

A `Codec` describes a message type by its fields. Those that differ from their
default are written in the order of the description. The entries of a map come in
no fixed order, so a message may be written in several forms (`Writes`), of which
`encode` is one. `decode?` starts from the message of defaults and folds in the
fields as they come: the last of a plain field counts, parts of a message merge,
items of a list and entries of a map add up, and fields of other numbers are
passed over.
-/

namespace MetalPool.Wire

/-- How one field of the message `α` is written and read. -/
structure FieldCodec (α : Type) where
  number : Nat
  isMap : Bool := false
  /-- A form of the field in the message, once for each item. -/
  write : α → List Bytes
  /-- The forms of the field. Most kinds have the one. -/
  Writes : α → List Bytes → Prop := fun a written => written = write a
  writes_write : ∀ a, Writes a (write a) := by exact fun _ => rfl
  /-- The message with one more occurrence of the field, where messages may
  still nest as deep as given. -/
  read : Nat → α → Payload → Option α

structure Codec (α : Type) where
  default : α
  fields : List (FieldCodec α)

namespace Codec

variable {α : Type}

/-- The bytes are the fields of the message one by one, each in one of its forms. -/
def Writes (c : Codec α) (a : α) (bs : Bytes) : Prop :=
  ∃ parts : List (FieldCodec α × List Bytes), parts.map Prod.fst = c.fields ∧
    (∀ part ∈ parts, part.1.Writes a part.2) ∧ bs = (parts.flatMap Prod.snd).flatten

/-- One form of the message. -/
def encode (c : Codec α) (a : α) : Bytes := (c.fields.flatMap (·.write a)).flatten

theorem writes_encode (c : Codec α) (a : α) : c.Writes a (c.encode a) := by
  refine ⟨c.fields.map fun f => (f, f.write a), ?_, fun part hpart => ?_, ?_⟩
  · rw [List.map_map]
    exact List.map_id _
  · obtain ⟨f, -, rfl⟩ := List.mem_map.1 hpart
    exact f.writes_write a
  · rw [List.flatMap_map]
    rfl

/-- The items written as fields of that number, each in one of its forms. -/
def WritesItems (c : Codec α) (number : Nat) (items : List α) (written : List Bytes) : Prop :=
  ∃ inner : List (α × Bytes), inner.map Prod.fst = items ∧ (∀ e ∈ inner, c.Writes e.1 e.2) ∧
    written = inner.map fun e => writeDelimited number e.2

/-- One form of the items. -/
def encodeItems (c : Codec α) (number : Nat) (items : List α) : List Bytes :=
  items.map fun a => writeDelimited number (c.encode a)

theorem writesItems_encodeItems (c : Codec α) (number : Nat) (items : List α) :
    c.WritesItems number items (c.encodeItems number items) := by
  refine ⟨items.map fun a => (a, c.encode a), ?_, fun e he => ?_, ?_⟩
  · rw [List.map_map]
    exact List.map_id _
  · obtain ⟨a, -, rfl⟩ := List.mem_map.1 he
    exact c.writes_encode a
  · rw [List.map_map]
    rfl

def isMap (c : Codec α) (number : Nat) : Bool :=
  c.fields.any fun f => f.number == number && f.isMap

/-- The message after one field. -/
def step (c : Codec α) (depth : Nat) (a : α) (field : Nat × Payload) : Option α :=
  match c.fields.find? (·.number == field.1) with
  | some f => f.read depth a field.2
  | none => some a

/-- The message `a` after the fields in the bytes. -/
def merge (c : Codec α) (depth : Nat) (a : α) (bs : Bytes) : Option α := do
  (← readFields c.isMap depth bs).foldlM (c.step depth) a

/-- The message that the bytes hold. -/
def decode? (c : Codec α) (bs : Bytes) : Option α := c.merge maxDepth c.default bs

end Codec

namespace FieldCodec

variable {α β : Type}

/-- The two's complement of an `Int32` in 64 bits. -/
def int32Bits (n : Int32) : Nat := (n.toInt % 18446744073709551616).toNat

def int32OfBits (n : Nat) : Int32 := (UInt32.ofNat n).toInt32

/-- A number of 32 bits with sign. -/
def int32 (number : Nat) (get : α → Int32) (set : α → Int32 → α) : FieldCodec α where
  number := number
  write a := if get a = 0 then [] else [writeNumber number (int32Bits (get a))]
  read _ a
    | .varint n => some (set a (int32OfBits n))
    | _ => none

/-- A number of 64 bits with sign. -/
def int64 (number : Nat) (get : α → Int64) (set : α → Int64 → α) : FieldCodec α where
  number := number
  write a :=
    if get a = 0 then [] else [writeNumber number ((get a).toInt % 18446744073709551616).toNat]
  read _ a
    | .varint n => some (set a (UInt64.ofNat n).toInt64)
    | _ => none

def bytes (number : Nat) (get : α → Bytes) (set : α → Bytes → α) : FieldCodec α where
  number := number
  write a := if get a = [] then [] else [writeDelimited number (get a)]
  read _ a
    | .delimited bs => some (set a bs)
    | _ => none

def text (number : Nat) (get : α → String) (set : α → String → α) : FieldCodec α where
  number := number
  write a := if get a = "" then [] else [writeDelimited number (Bytes.ofText (get a))]
  read _ a
    | .delimited bs => (Bytes.ofUtf8? bs).map (set a)
    | _ => none

/-- Reads the bytes of a message inside another onto `b`. -/
def readInner (c : Codec β) (depth : Nat) (b : β) : Payload → Option β
  | .delimited bs =>
    match depth with
    | 0 => none
    | depth + 1 => c.merge depth b bs
  | _ => none

/-- A message that may be missing. -/
def message (number : Nat) (c : Codec β) (get : α → Option β) (set : α → β → α) :
    FieldCodec α where
  number := number
  write a := c.encodeItems number (get a).toList
  Writes a := c.WritesItems number (get a).toList
  writes_write a := c.writesItems_encodeItems number (get a).toList
  read depth a payload := (readInner c depth ((get a).getD c.default) payload).map (set a)

/-- A list of messages. -/
def repeated (number : Nat) (c : Codec β) (get : α → List β) (set : α → List β → α) :
    FieldCodec α where
  number := number
  write a := c.encodeItems number (get a)
  Writes a := c.WritesItems number (get a)
  writes_write a := c.writesItems_encodeItems number (get a)
  read depth a payload := (readInner c depth c.default payload).map fun b => set a (get a ++ [b])

/-- The message that an entry of a map is: its key and its value. -/
def entry (value : FieldCodec (String × β)) (default : β) : Codec (String × β) where
  default := ("", default)
  fields := [text 1 Prod.fst (fun e k => (k, e.2)), value]

/-- Bytes in the order of a dictionary. -/
def bytesLe (a b : Bytes) : Bool := !decide (b < a)

/-- The entries of a map in the order of their bytes. -/
def inByteOrder (c : Codec (String × β)) (number : Nat) (entries : List (String × β)) :
    List (String × β) :=
  entries.mergeSort fun e e' =>
    bytesLe (writeDelimited number (c.encode e)) (writeDelimited number (c.encode e'))

/-- A map, its entries in any order. -/
def map (number : Nat) (c : Codec (String × β)) (get : α → SortedMap β)
    (set : α → SortedMap β → α) : FieldCodec α where
  number := number
  isMap := true
  write a := c.encodeItems number (inByteOrder c number (get a).entries)
  Writes a written := ∃ entries, entries.Perm (get a).entries ∧ c.WritesItems number entries written
  writes_write _ := ⟨_, List.mergeSort_perm .., c.writesItems_encodeItems ..⟩
  read depth a payload :=
    (readInner c depth c.default payload).map fun e => set a ((get a).insert e.1 e.2)

end FieldCodec

end MetalPool.Wire
