import Mathlib.Data.List.Pairwise
import MetalPool.Proofs.Wire.Field
import MetalPool.Wire.Codec
/-!
# Messages and their forms

A `Slot` is a field of a message with what it holds and with the payloads that
stand for that; a `Message` is a codec whose fields are slots that do not get in
each other's way. `Message.Form` says which bytes stand for a message: a sequence
of fields in which the payloads of each slot stand for what the slot holds. The
slots may come in any order and mixed with each other, and fields of other numbers
may stand anywhere.

All of these bytes are read as the message (`Message.Form.decode?`), and whatever
is written for it is among them (`Message.form_of_writes`). With groups that nest
too deep for the reader among the other fields they are refused
(`Message.mixes_or_refused`).
-/

namespace MetalPool.Wire

variable {α β : Type} {depth : Nat} {bs : Bytes}

/-- The payloads of the fields with that number, in order. -/
def payloadsOf (number : Nat) (fields : List (Nat × Payload)) : List Payload :=
  (fields.filter (·.1 == number)).map Prod.snd

/-- A field of the message `α`. -/
structure Slot (α : Type) where
  field : FieldCodec α
  Value : Type
  get : α → Value
  /-- What the slot holds before the field occurs. -/
  initial : Value
  Input : Type
  set : α → Input → α
  /-- What the slot holds after one more occurrence of the field. -/
  step : Nat → Value → Payload → Option Value
  /-- The payloads stand for the value, where messages may still nest as deep as given. -/
  Spells : Nat → Value → List Payload → Prop
  /-- How deep messages nest in the field. -/
  height : Nat
  pos : 1 ≤ field.number
  lt : field.number < 536870912
  read_of_step {depth : Nat} {a : α} {payload : Payload} {v : Value}
    (h : step depth (get a) payload = some v) :
    ∃ x, field.read depth a payload = some (set a x) ∧ get (set a x) = v
  fold_of_spells {depth : Nat} {v : Value} {payloads : List Payload} (h : Spells depth v payloads) :
    payloads.foldlM (step depth) initial = some v
  delimited_of_isMap {depth : Nat} {v : Value} {payloads : List Payload} (hmap : field.isMap)
    (h : Spells depth v payloads) : ∀ payload ∈ payloads, ∃ bs, payload = .delimited bs
  spells_written {depth : Nat} {a : α} {written : List Bytes} (hheight : height ≤ depth)
    (hwritten : field.Writes a written) (hsize : ∀ bs ∈ written, bs.length < 18446744073709551616) :
    ∃ payloads, Spells depth (get a) payloads ∧
      List.Forall₂ (FieldForm depth field.number) payloads written

namespace Slot

/-- Neither of the slots touches what the other holds. -/
structure Apart (p q : Slot α) : Prop where
  number_ne : p.field.number ≠ q.field.number
  get_right : ∀ a x, q.get (p.set a x) = q.get a
  get_left : ∀ a x, p.get (q.set a x) = p.get a

instance : Std.Symm (Apart : Slot α → Slot α → Prop) where
  symm _ _ h := ⟨h.number_ne.symm, h.get_left, h.get_right⟩

end Slot

/-- A codec and its slots. -/
structure Message (α : Type) where
  codec : Codec α
  slots : List (Slot α)
  fields_eq : codec.fields = slots.map Slot.field
  initial_eq : ∀ p ∈ slots, p.get codec.default = p.initial
  apart : slots.Pairwise Slot.Apart
  ext : ∀ a b, (∀ p ∈ slots, p.get a = p.get b) → a = b

namespace Message

variable {m : Message α} {a b : α} {fields : List (Nat × Payload)} {chunks : List (Nat × Bytes)}

/-- The bytes stand for the message, at a place where messages and groups may nest as deep as `depth`
says. -/
def Form (m : Message α) (depth : Nat) (a : α) (bs : Bytes) : Prop :=
  ∃ fields, FieldsForm depth fields bs ∧
    ∀ p ∈ m.slots, p.Spells depth (p.get a) (payloadsOf p.field.number fields)

/-- How deep messages nest in the message. -/
def height (m : Message α) : Nat := (m.slots.map Slot.height).foldr max 0

theorem height_le {p : Slot α} (hp : p ∈ m.slots) : p.height ≤ m.height := by
  unfold height
  generalize m.slots = slots at hp
  induction slots with
  | nil => cases hp
  | cons q slots ih =>
    rcases List.mem_cons.1 hp with rfl | hp
    · exact Nat.le_max_left ..
    · exact Nat.le_trans (ih hp) (Nat.le_max_right ..)

/-! ## Reading -/

theorem apart_of_ne {p q : Slot α} (hp : p ∈ m.slots) (hq : q ∈ m.slots) (hne : p ≠ q) : p.Apart q :=
  m.apart.forall hp hq hne

/-- A field is known if one of the slots has its number. -/
theorem find?_fields (m : Message α) (number : Nat) :
    (∃ p ∈ m.slots, p.field.number = number ∧ m.codec.fields.find? (·.number == number) = some p.field) ∨
    ((∀ p ∈ m.slots, p.field.number ≠ number) ∧ m.codec.fields.find? (·.number == number) = none) := by
  rw [m.fields_eq]
  cases hfind : (m.slots.map Slot.field).find? (·.number == number) with
  | none =>
    refine .inr ⟨fun p hp => ?_, rfl⟩
    simpa using List.find?_eq_none.1 hfind p.field (List.mem_map_of_mem hp)
  | some f =>
    obtain ⟨p, hp, rfl⟩ := List.mem_map.1 (List.mem_of_find?_eq_some hfind)
    exact .inl ⟨p, hp, by simpa using List.find?_some hfind, rfl⟩

theorem payloadsOf_cons_self (number : Nat) (payload : Payload) (fields : List (Nat × Payload)) :
    payloadsOf number ((number, payload) :: fields) = payload :: payloadsOf number fields := by
  simp [payloadsOf]

theorem payloadsOf_cons_of_ne {number n : Nat} (h : n ≠ number) (payload : Payload)
    (fields : List (Nat × Payload)) :
    payloadsOf number ((n, payload) :: fields) = payloadsOf number fields := by
  simp [payloadsOf, h]

/-- The fields of a message are folded in slot by slot, however they are mixed: the induction is on the
fields, and what holds of each slot is that its payloads lead from what it holds to what it is to hold. -/
theorem foldlM_step
    (h : ∀ p ∈ m.slots, (payloadsOf p.field.number fields).foldlM (p.step depth) (p.get b) = some (p.get a)) :
    fields.foldlM (m.codec.step depth) b = some a := by
  induction fields generalizing b with
  | nil =>
    have hsame : b = a := m.ext b a fun p hp => Option.some.inj (h p hp)
    rw [hsame]
    rfl
  | cons field fields ih =>
    obtain ⟨number, payload⟩ := field
    rw [List.foldlM_cons]
    unfold Codec.step
    rcases m.find?_fields number with ⟨p, hp, rfl, hfind⟩ | ⟨hne, hfind⟩
    · have hown := h p hp
      rw [payloadsOf_cons_self, List.foldlM_cons] at hown
      obtain ⟨v, hv, hrest⟩ := Option.bind_eq_some_iff.1 hown
      obtain ⟨x, hread, hget⟩ := p.read_of_step hv
      simp only [hfind, hread]
      refine ih fun q hq => ?_
      rcases Classical.em (p = q) with rfl | hpq
      · rw [hget]
        exact hrest
      · have happart := apart_of_ne hp hq hpq
        have hother := h q hq
        rw [payloadsOf_cons_of_ne happart.number_ne] at hother
        rw [happart.get_right]
        exact hother
    · simp only [hfind]
      refine ih fun q hq => ?_
      have hother := h q hq
      rwa [payloadsOf_cons_of_ne (hne q hq).symm] at hother

theorem exists_slot_of_isMap {number : Nat} (h : m.codec.isMap number) :
    ∃ p ∈ m.slots, p.field.number = number ∧ p.field.isMap := by
  obtain ⟨f, hf, hnumber⟩ := List.any_eq_true.1 h
  rw [m.fields_eq] at hf
  obtain ⟨p, hp, rfl⟩ := List.mem_map.1 hf
  simp only [Bool.and_eq_true, beq_iff_eq] at hnumber
  exact ⟨p, hp, hnumber⟩

theorem Form.merge (h : m.Form depth a bs) : m.codec.merge depth m.codec.default bs = some a := by
  obtain ⟨fields, hfields, hspells⟩ := h
  have hmap : ∀ field ∈ fields, m.codec.isMap field.1 → ∃ bytes, field.2 = .delimited bytes := by
    intro field hfield hmap
    obtain ⟨p, hp, hnumber, hmap⟩ := exists_slot_of_isMap hmap
    refine p.delimited_of_isMap hmap (hspells p hp) field.2 (List.mem_map_of_mem ?_)
    exact List.mem_filter.2 ⟨hfield, by simp [hnumber]⟩
  unfold Codec.merge
  rw [hfields.read hmap]
  refine foldlM_step fun p hp => ?_
  rw [m.initial_eq p hp]
  exact p.fold_of_spells (hspells p hp)

/-- All bytes that stand for a message are read as that message. -/
theorem Form.decode? (h : m.Form maxDepth a bs) : m.codec.decode? bs = some a := h.merge

/-! ## Writing -/

/-- What the bytes of a field hold. -/
def payloadOf (depth : Nat) (bs : Bytes) : Payload :=
  ((readField (fun _ => false) depth bs).map fun e => e.1.2).getD .group

theorem payloadOf_eq {number : Nat} {payload : Payload} (h : FieldForm depth number payload bs) :
    payloadOf depth bs = payload := by
  have hread : readField (fun _ => false) depth (bs ++ []) = _ := h.read (by simp) []
  rw [List.append_nil] at hread
  unfold payloadOf
  rw [hread]
  rfl

theorem map_payloadOf {number : Nat} {payloads : List Payload} {written : List Bytes}
    (h : List.Forall₂ (FieldForm depth number) payloads written) :
    written.map (payloadOf depth) = payloads := by
  induction h with
  | nil => rfl
  | cons hfield _ ih => rw [List.map_cons, payloadOf_eq hfield, ih]

/-- The payloads of one number are what the chunks of that number hold. -/
theorem payloadsOf_chunks (depth number : Nat) (chunks : List (Nat × Bytes)) :
    payloadsOf number (chunks.map fun chunk => (chunk.1, payloadOf depth chunk.2)) =
      ((chunks.filter (·.1 == number)).map Prod.snd).map (payloadOf depth) := by
  simp [payloadsOf, List.filter_map, Function.comp_def]

theorem mem_of_forall₂ {number : Nat} {payloads : List Payload} {written : List Bytes}
    (h : List.Forall₂ (FieldForm depth number) payloads written) (hm : bs ∈ written) :
    FieldForm depth number (payloadOf depth bs) bs ∧ payloadOf depth bs ∈ payloads := by
  induction h with
  | nil => cases hm
  | cons hfield _ ih =>
    rcases List.mem_cons.1 hm with rfl | hm
    · rw [payloadOf_eq hfield]
      exact ⟨hfield, List.mem_cons_self⟩
    · exact ⟨(ih hm).1, List.mem_cons_of_mem _ (ih hm).2⟩

theorem fieldsForm_of_chunks
    (h : ∀ chunk ∈ chunks, FieldForm depth chunk.1 (payloadOf depth chunk.2) chunk.2) :
    FieldsForm depth (chunks.map fun chunk => (chunk.1, payloadOf depth chunk.2))
      (chunks.map Prod.snd).flatten := by
  induction chunks with
  | nil => exact .nil
  | cons chunk chunks ih =>
    obtain ⟨hfirst, hrest⟩ := List.forall_mem_cons.1 h
    exact .cons hfirst (ih hrest)

/-- Fields at a place where groups may nest deep enough fit the reader, or the reader refuses them. -/
theorem fits_or_refused {isMap : Nat → Bool} (limit : Nat)
    (h : ∀ chunk ∈ chunks, ∃ depth payload, FieldForm depth chunk.1 payload chunk.2 ∧
      (isMap chunk.1 → ∃ bytes, payload = .delimited bytes)) :
    (∀ chunk ∈ chunks, ∃ payload, FieldForm limit chunk.1 payload chunk.2) ∨
      ∀ fuel, readFieldsWithin isMap limit fuel (chunks.map Prod.snd).flatten = none := by
  induction chunks with
  | nil => exact .inl (List.forall_mem_nil _)
  | cons chunk chunks ih =>
    obtain ⟨⟨depth, payload, hform, hmap⟩, hrest⟩ := List.forall_mem_cons.1 h
    rw [List.map_cons, List.flatten_cons]
    have hpos : 0 < (chunk.2 ++ (chunks.map Prod.snd).flatten).length := by
      rw [List.length_append]
      exact Nat.add_pos_left hform.length_pos _
    -- The reader stops at the first field that it refuses, so the fields before it must be read.
    rcases hform.fits_or_refused hmap limit with hfits | hrefused
    · refine (ih hrest).imp (fun hall => List.forall_mem_cons.2 ⟨⟨payload, hfits⟩, hall⟩) ?_
      intro hrefused fuel
      cases fuel with
      | zero => exact readFieldsWithin_zero hpos
      | succ fuel =>
        rw [readFieldsWithin_succ hpos, hfits.read hmap, Option.bind_some, hrefused]
        rfl
    · refine .inr fun fuel => ?_
      cases fuel with
      | zero => exact readFieldsWithin_zero hpos
      | succ fuel =>
        rw [readFieldsWithin_succ hpos, hrefused]
        rfl

/-- The chunks, each with its number, are the fields of the message in one of their forms, mixed in any way
among each other and with well-formed fields of other numbers. -/
structure Mixes (c : Codec α) (depth : Nat) (a : α) (chunks : List (Nat × Bytes)) : Prop where
  written : ∀ f ∈ c.fields, f.Writes a ((chunks.filter (·.1 == f.number)).map Prod.snd)
  others : ∀ chunk ∈ chunks, (∀ f ∈ c.fields, f.number ≠ chunk.1) →
    ∃ payload, FieldForm depth chunk.1 payload chunk.2

/-- What the chunks of a slot hold, wherever the slot's own messages may nest deep enough. -/
theorem Mixes.spells {limit : Nat} (h : Mixes m.codec depth a chunks) (hheight : m.height ≤ limit)
    (hsize : ∀ chunk ∈ chunks, chunk.2.length < 18446744073709551616) {p : Slot α} (hp : p ∈ m.slots) :
    ∃ payloads, p.Spells limit (p.get a) payloads ∧
      List.Forall₂ (FieldForm limit p.field.number) payloads
        ((chunks.filter (·.1 == p.field.number)).map Prod.snd) := by
  have hfield : p.field ∈ m.codec.fields := by
    rw [m.fields_eq]
    exact List.mem_map_of_mem hp
  refine p.spells_written (Nat.le_trans (height_le hp) hheight) (h.written _ hfield) fun bs hbs => ?_
  obtain ⟨chunk, hchunk, rfl⟩ := List.mem_map.1 hbs
  exact hsize chunk (List.mem_filter.1 hchunk).1

theorem Mixes.fieldForm {limit : Nat} (h : Mixes m.codec depth a chunks) (hheight : m.height ≤ limit)
    (hsize : ∀ chunk ∈ chunks, chunk.2.length < 18446744073709551616) {p : Slot α} (hp : p ∈ m.slots)
    {chunk : Nat × Bytes} (hchunk : chunk ∈ chunks) (hnumber : p.field.number = chunk.1) :
    FieldForm limit chunk.1 (payloadOf limit chunk.2) chunk.2 ∧
      (p.field.isMap → ∃ bytes, payloadOf limit chunk.2 = .delimited bytes) := by
  obtain ⟨payloads, hspells, hforms⟩ := h.spells hheight hsize hp
  have hmem : chunk.2 ∈ (chunks.filter (·.1 == p.field.number)).map Prod.snd :=
    List.mem_map_of_mem (List.mem_filter.2 ⟨hchunk, by simp [hnumber]⟩)
  obtain ⟨hform, hpayload⟩ := mem_of_forall₂ hforms hmem
  exact ⟨hnumber ▸ hform, fun hmap => p.delimited_of_isMap hmap hspells _ hpayload⟩

/-- Chunks of no slot's number are well-formed fields. -/
theorem Mixes.other (h : Mixes m.codec depth a chunks) {chunk : Nat × Bytes} (hchunk : chunk ∈ chunks)
    (hother : ¬∃ p ∈ m.slots, p.field.number = chunk.1) :
    ∃ payload, FieldForm depth chunk.1 payload chunk.2 := by
  refine h.others chunk hchunk fun f hf he => ?_
  rw [m.fields_eq] at hf
  obtain ⟨p, hp, rfl⟩ := List.mem_map.1 hf
  exact hother ⟨p, hp, he⟩

theorem form_of_mixes (h : Mixes m.codec depth a chunks) (hheight : m.height ≤ depth)
    (hsize : ∀ chunk ∈ chunks, chunk.2.length < 18446744073709551616) :
    m.Form depth a (chunks.map Prod.snd).flatten := by
  refine ⟨chunks.map fun chunk => (chunk.1, payloadOf depth chunk.2),
    fieldsForm_of_chunks fun chunk hchunk => ?_, fun p hp => ?_⟩
  · by_cases hknown : ∃ p ∈ m.slots, p.field.number = chunk.1
    · obtain ⟨p, hp, hnumber⟩ := hknown
      exact (h.fieldForm hheight hsize hp hchunk hnumber).1
    · obtain ⟨payload, hform⟩ := h.other hchunk hknown
      rwa [payloadOf_eq hform]
  · obtain ⟨payloads, hspells, hforms⟩ := h.spells hheight hsize hp
    rwa [payloadsOf_chunks, map_payloadOf hforms]

/-- Fields that mix where groups may nest deep enough mix also where they may nest as deep as `limit` says,
or the message is refused there. -/
theorem mixes_or_refused {limit : Nat} (h : Mixes m.codec depth a chunks) (hheight : m.height ≤ limit)
    (hsize : ∀ chunk ∈ chunks, chunk.2.length < 18446744073709551616) :
    Mixes m.codec limit a chunks ∨
      m.codec.merge limit m.codec.default (chunks.map Prod.snd).flatten = none := by
  have hchunks : ∀ chunk ∈ chunks, ∃ depth payload, FieldForm depth chunk.1 payload chunk.2 ∧
      (m.codec.isMap chunk.1 → ∃ bytes, payload = .delimited bytes) := by
    intro chunk hchunk
    by_cases hknown : ∃ p ∈ m.slots, p.field.number = chunk.1
    · obtain ⟨p, hp, hnumber⟩ := hknown
      refine ⟨limit, _, (h.fieldForm hheight hsize hp hchunk hnumber).1, fun hmap => ?_⟩
      obtain ⟨q, hq, hnumber, hmap⟩ := exists_slot_of_isMap hmap
      exact (h.fieldForm hheight hsize hq hchunk hnumber).2 hmap
    · obtain ⟨payload, hform⟩ := h.other hchunk hknown
      refine ⟨depth, payload, hform, fun hmap => absurd ?_ hknown⟩
      obtain ⟨q, hq, hnumber, -⟩ := exists_slot_of_isMap hmap
      exact ⟨q, hq, hnumber⟩
  refine (fits_or_refused limit hchunks).imp (fun hfits => ⟨h.written, fun chunk hchunk _ => ?_⟩) ?_
  · exact hfits chunk hchunk
  · intro hrefused
    unfold Codec.merge readFields
    rw [hrefused]
    rfl

/-- The fields in the parts of a message, with their numbers. -/
def chunksOf (parts : List (FieldCodec α × List Bytes)) : List (Nat × Bytes) :=
  parts.flatMap fun part => part.2.map (part.1.number, ·)

theorem map_chunksOf (parts : List (FieldCodec α × List Bytes)) :
    (chunksOf parts).map Prod.snd = parts.flatMap Prod.snd := by
  unfold chunksOf
  rw [List.map_flatMap]
  simp [Function.comp_def]

theorem filter_chunksOf {parts : List (FieldCodec α × List Bytes)}
    (hapart : parts.Pairwise (·.1.number ≠ ·.1.number)) {part : FieldCodec α × List Bytes}
    (hpart : part ∈ parts) :
    ((chunksOf parts).filter (·.1 == part.1.number)).map Prod.snd = part.2 := by
  have hown (q : FieldCodec α × List Bytes) : (q.2.map (q.1.number, ·)).filter (·.1 == part.1.number) =
      if q.1.number = part.1.number then q.2.map (q.1.number, ·) else [] := by
    split <;> rename_i h <;>
      simp [List.filter_map, Function.comp_def, h, List.filter_eq_self.2 fun _ _ => rfl]
  induction parts with
  | nil => cases hpart
  | cons q parts ih =>
    obtain ⟨hq, hparts⟩ := List.pairwise_cons.1 hapart
    unfold chunksOf at ih ⊢
    rw [List.flatMap_cons, List.filter_append, hown]
    rcases List.mem_cons.1 hpart with rfl | hpart
    · have hnone : (parts.flatMap fun q => q.2.map (q.1.number, ·)).filter (·.1 == part.1.number) = [] := by
        refine List.filter_eq_nil_iff.2 fun chunk hchunk => ?_
        obtain ⟨q, hq', hchunk⟩ := List.mem_flatMap.1 hchunk
        obtain ⟨_, -, rfl⟩ := List.mem_map.1 hchunk
        simpa using (hq q hq').symm
      rw [hnone, if_pos rfl, List.append_nil, List.map_map]
      exact List.map_id _
    · rw [if_neg (hq part hpart), List.nil_append]
      exact ih hparts hpart

/-- What is written for a message is its fields, unmixed. -/
theorem mixes_of_writes (depth : Nat) (h : m.codec.Writes a bs) :
    ∃ chunks, Mixes m.codec depth a chunks ∧ (chunks.map Prod.snd).flatten = bs := by
  obtain ⟨parts, hfields, hwrites, rfl⟩ := h
  have hnumbers : parts.Pairwise (·.1.number ≠ ·.1.number) := by
    have hslots : (parts.map Prod.fst).Pairwise (·.number ≠ ·.number) := by
      rw [hfields, m.fields_eq]
      exact List.pairwise_map.2 (m.apart.imp Slot.Apart.number_ne)
    rwa [List.pairwise_map] at hslots
  refine ⟨chunksOf parts, ⟨fun f hf => ?_, fun chunk hchunk hother => ?_⟩, ?_⟩
  · rw [← hfields] at hf
    obtain ⟨part, hpart, rfl⟩ := List.mem_map.1 hf
    rw [filter_chunksOf hnumbers hpart]
    exact hwrites part hpart
  · obtain ⟨part, hpart, hchunk⟩ := List.mem_flatMap.1 hchunk
    obtain ⟨_, -, rfl⟩ := List.mem_map.1 hchunk
    refine absurd rfl (hother part.1 ?_)
    rw [← hfields]
    exact List.mem_map_of_mem hpart
  · rw [map_chunksOf]

theorem length_le_flatten {chunk : Nat × Bytes} (h : chunk ∈ chunks) :
    chunk.2.length ≤ (chunks.map Prod.snd).flatten.length :=
  (List.sublist_flatten_of_mem (List.mem_map_of_mem h)).length_le

/-- What is written for a message stands for it. -/
theorem form_of_writes (hheight : m.height ≤ depth) (h : m.codec.Writes a bs)
    (hsize : bs.length < 18446744073709551616) : m.Form depth a bs := by
  obtain ⟨chunks, hmixes, rfl⟩ := mixes_of_writes depth h
  exact form_of_mixes hmixes hheight fun chunk hchunk =>
    Nat.lt_of_le_of_lt (length_le_flatten hchunk) hsize

/-! ## Small messages -/

/-- A message of one field. -/
def single (codec : Codec α) (p : Slot α) (fields_eq : codec.fields = [p.field])
    (initial_eq : p.get codec.default = p.initial) (ext : ∀ a b, p.get a = p.get b → a = b) :
    Message α where
  codec := codec
  slots := [p]
  fields_eq := fields_eq
  initial_eq := List.forall_mem_singleton.2 initial_eq
  apart := List.pairwise_singleton ..
  ext a b h := ext a b (h p List.mem_cons_self)

/-- A message of two fields. -/
def pair (codec : Codec α) (p q : Slot α) (fields_eq : codec.fields = [p.field, q.field])
    (initial_eq : p.get codec.default = p.initial ∧ q.get codec.default = q.initial) (apart : p.Apart q)
    (ext : ∀ a b, p.get a = p.get b → q.get a = q.get b → a = b) : Message α where
  codec := codec
  slots := [p, q]
  fields_eq := fields_eq
  initial_eq := List.forall_mem_cons.2 ⟨initial_eq.1, List.forall_mem_singleton.2 initial_eq.2⟩
  apart := List.pairwise_pair.2 apart
  ext a b h := ext a b (h p List.mem_cons_self) (h q (List.mem_cons_of_mem _ List.mem_cons_self))

end Message

end MetalPool.Wire
