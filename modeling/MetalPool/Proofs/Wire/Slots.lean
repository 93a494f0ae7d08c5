import MetalPool.Proofs.Wire.Message
/-!
# The kinds of fields

Each kind of field as a `Slot`: plain values, which are left out where they are
the default, messages inside messages, lists of them, and maps. What is read of a
plain value is what was written (`Scalar`). A message inside another may have any
form that it may have by itself (`Inner`), and the entries of a map may stand in
any order.
-/

namespace MetalPool.Wire

open FieldCodec (int32Bits int32OfBits readInner)

variable {α β V : Type} {depth number : Nat}

/-! ## Plain values -/

/-- A kind of plain values. -/
structure Scalar (V : Type) where
  initial : V
  payload : V → Payload
  read : Payload → Option V
  write : Nat → V → Bytes
  read_payload (v : V) : read (payload v) = some v
  form {depth number : Nat} {v : V} (hpos : 1 ≤ number) (hlt : number < 536870912)
    (hsize : (write number v).length < 18446744073709551616) :
    FieldForm depth number (payload v) (write number v)

namespace Scalar

theorem int32OfBits_bits (n : Int32) : int32OfBits (int32Bits n) = n := by
  have hlow := n.le_toInt
  have hhigh := n.toInt_lt
  have hsize : (Int32.size : Int) = 4294967296 := rfl
  unfold int32OfBits int32Bits
  apply Int32.toInt_inj.1
  rw [UInt32.toInt32_ofNat', Int32.toInt_ofNat', Int.toNat_of_nonneg (by omega), Int.bmod, hsize]
  split <;> omega

theorem toInt64_bits (n : Int64) :
    (UInt64.ofNat (n.toInt % 18446744073709551616).toNat).toInt64 = n := by
  have hlow := n.le_toInt
  have hhigh := n.toInt_lt
  have hsize : (Int64.size : Int) = 18446744073709551616 := rfl
  apply Int64.toInt_inj.1
  rw [UInt64.toInt64_ofNat', Int64.toInt_ofNat', Int.toNat_of_nonneg (by omega), Int.bmod, hsize]
  split <;> omega

theorem toNat_emod_lt (n : Int) : (n % 18446744073709551616).toNat < 18446744073709551616 := by
  omega

def int32 : Scalar Int32 where
  initial := 0
  payload n := .varint (int32Bits n)
  read
    | .varint n => some (int32OfBits n)
    | _ => none
  write number n := writeNumber number (int32Bits n)
  read_payload n := congrArg some (int32OfBits_bits n)
  form hpos hlt _ := fieldForm_writeNumber hpos hlt (toNat_emod_lt _)

def int64 : Scalar Int64 where
  initial := 0
  payload n := .varint (n.toInt % 18446744073709551616).toNat
  read
    | .varint n => some (UInt64.ofNat n).toInt64
    | _ => none
  write number n := writeNumber number (n.toInt % 18446744073709551616).toNat
  read_payload n := congrArg some (toInt64_bits n)
  form hpos hlt _ := fieldForm_writeNumber hpos hlt (toNat_emod_lt _)

def bytes : Scalar Bytes where
  initial := []
  payload := .delimited
  read
    | .delimited bs => some bs
    | _ => none
  write := writeDelimited
  read_payload _ := rfl
  form hpos hlt hsize :=
    fieldForm_writeDelimited hpos hlt (Nat.lt_trans (length_lt_writeDelimited ..) hsize)

def text : Scalar String where
  initial := ""
  payload s := .delimited (Bytes.ofText s)
  read
    | .delimited bs => Bytes.ofUtf8? bs
    | _ => none
  write number s := writeDelimited number (Bytes.ofText s)
  read_payload := Bytes.ofUtf8?_ofText
  form hpos hlt hsize :=
    fieldForm_writeDelimited hpos hlt (Nat.lt_trans (length_lt_writeDelimited ..) hsize)

end Scalar

namespace Slot

/-- A field with a plain value, left out where that is the default. -/
def ofScalar [DecidableEq V] (kind : Scalar V) (field : FieldCodec α) (get : α → V) (set : α → V → α)
    (hnumber : 1 ≤ field.number ∧ field.number < 536870912) (hmap : field.isMap = false)
    (hget : ∀ a v, get (set a v) = v)
    (hread : ∀ depth a payload, field.read depth a payload = (kind.read payload).map (set a))
    (hwrite : ∀ a written, field.Writes a written ↔
      written = if get a = kind.initial then [] else [kind.write field.number (get a)]) : Slot α where
  field := field
  Value := V
  get := get
  initial := kind.initial
  Input := V
  set := set
  step _ _ := kind.read
  Spells _ v payloads := payloads = if v = kind.initial then [] else [kind.payload v]
  height := 0
  pos := hnumber.1
  lt := hnumber.2
  read_of_step {depth a payload v} h := ⟨v, by rw [hread, h]; rfl, hget a v⟩
  fold_of_spells {depth v payloads} h := by
    rw [h]
    split
    · rename_i hv
      rw [hv]
      rfl
    · simp [kind.read_payload v]
  delimited_of_isMap h := by rw [hmap] at h; cases h
  spells_written {depth a written} _ hwritten hsize := by
    refine ⟨_, rfl, ?_⟩
    obtain rfl := (hwrite a written).1 hwritten
    split
    · exact .nil
    · rename_i hv
      rw [if_neg hv] at hsize
      exact .cons (kind.form hnumber.1 hnumber.2 (hsize _ List.mem_cons_self)) .nil

def int32 (number : Nat) (get : α → Int32) (set : α → Int32 → α)
    (hnumber : 1 ≤ number ∧ number < 536870912) (hget : ∀ a v, get (set a v) = v) : Slot α :=
  ofScalar .int32 (.int32 number get set) get set hnumber rfl hget
    (fun _ _ payload => by cases payload <;> rfl) fun _ _ => .rfl

def int64 (number : Nat) (get : α → Int64) (set : α → Int64 → α)
    (hnumber : 1 ≤ number ∧ number < 536870912) (hget : ∀ a v, get (set a v) = v) : Slot α :=
  ofScalar .int64 (.int64 number get set) get set hnumber rfl hget
    (fun _ _ payload => by cases payload <;> rfl) fun _ _ => .rfl

def bytes (number : Nat) (get : α → Bytes) (set : α → Bytes → α)
    (hnumber : 1 ≤ number ∧ number < 536870912) (hget : ∀ a v, get (set a v) = v) : Slot α :=
  ofScalar .bytes (.bytes number get set) get set hnumber rfl hget
    (fun _ _ payload => by cases payload <;> rfl) fun _ _ => .rfl

def text (number : Nat) (get : α → String) (set : α → String → α)
    (hnumber : 1 ≤ number ∧ number < 536870912) (hget : ∀ a v, get (set a v) = v) : Slot α :=
  ofScalar .text (.text number get set) get set hnumber rfl hget
    (fun _ _ payload => by cases payload <;> rfl) fun _ _ => .rfl

end Slot

/-! ## Messages inside messages -/

/-- The payload is a message of any form, one level further down. -/
inductive Inner (m : Message β) : Nat → β → Payload → Prop where
  | delimited {depth : Nat} {b : β} {bs : Bytes} (h : m.Form depth b bs) :
    Inner m (depth + 1) b (.delimited bs)

variable {m : Message β}

theorem Inner.read {b : β} {payload : Payload} (h : Inner m depth b payload) :
    readInner m.codec depth m.codec.default payload = some b := by
  cases h with
  | delimited h => exact h.merge

theorem Inner.isDelimited {b : β} {payload : Payload} (h : Inner m depth b payload) :
    ∃ bs, payload = .delimited bs := by
  cases h with
  | delimited => exact ⟨_, rfl⟩

/-- What is written for a message inside another stands for it. -/
theorem exists_inner {b : β} {bs : Bytes} (h : m.codec.Writes b bs) (hheight : m.height + 1 ≤ depth)
    (hpos : 1 ≤ number) (hlt : number < 536870912)
    (hsize : (writeDelimited number bs).length < 18446744073709551616) :
    ∃ payload, Inner m depth b payload ∧ FieldForm depth number payload (writeDelimited number bs) := by
  obtain ⟨depth, rfl⟩ := Nat.exists_eq_add_of_le' hheight
  have hlength : bs.length < 18446744073709551616 :=
    Nat.lt_trans (length_lt_writeDelimited ..) hsize
  exact ⟨_, .delimited (m.form_of_writes (Nat.le_add_left ..) h hlength),
    fieldForm_writeDelimited hpos hlt hlength⟩

/-- Messages written one by one stand for them. -/
theorem exists_inners {items : List β} {written : List Bytes}
    (h : m.codec.WritesItems number items written) (hheight : m.height + 1 ≤ depth) (hpos : 1 ≤ number)
    (hlt : number < 536870912) (hsize : ∀ bs ∈ written, bs.length < 18446744073709551616) :
    ∃ payloads, List.Forall₂ (Inner m depth) items payloads ∧
      List.Forall₂ (FieldForm depth number) payloads written := by
  obtain ⟨inner, rfl, hwrites, rfl⟩ := h
  induction inner with
  | nil => exact ⟨[], .nil, .nil⟩
  | cons e rest ih =>
    obtain ⟨hfirst, hrest⟩ := List.forall_mem_cons.1 hsize
    obtain ⟨hwrite, hwrites⟩ := List.forall_mem_cons.1 hwrites
    obtain ⟨payload, hinner, hform⟩ := exists_inner hwrite hheight hpos hlt hfirst
    obtain ⟨payloads, hinners, hforms⟩ := ih hwrites hrest
    exact ⟨payload :: payloads, .cons hinner hinners, .cons hform hforms⟩

theorem isDelimited_of_inners {bs : List β} {payloads : List Payload}
    (h : List.Forall₂ (Inner m depth) bs payloads) :
    ∀ payload ∈ payloads, ∃ bytes, payload = .delimited bytes := by
  intro payload hm
  induction h with
  | nil => cases hm
  | cons hinner _ ih =>
    rcases List.mem_cons.1 hm with rfl | hm
    · exact hinner.isDelimited
    · exact ih hm

namespace Slot

/-- A message that may be missing. -/
def message (number : Nat) (m : Message β) (get : α → Option β) (set : α → β → α)
    (hnumber : 1 ≤ number ∧ number < 536870912) (hget : ∀ a b, get (set a b) = some b) : Slot α where
  field := .message number m.codec get set
  Value := Option β
  get := get
  initial := none
  Input := β
  set := set
  step depth o payload := (readInner m.codec depth (o.getD m.codec.default) payload).map some
  Spells depth o payloads := List.Forall₂ (Inner m depth) o.toList payloads
  height := m.height + 1
  pos := hnumber.1
  lt := hnumber.2
  read_of_step {depth a payload v} h := by
    obtain ⟨b, hb, rfl⟩ := Option.map_eq_some_iff.1 h
    exact ⟨b, by simp [FieldCodec.message, hb], hget a b⟩
  fold_of_spells {depth o payloads} h := by
    cases o with
    | none => cases h; rfl
    | some b =>
      cases h with
      | cons hinner hnone =>
        cases hnone
        simp [hinner.read]
  delimited_of_isMap h := nomatch h
  spells_written hheight hwritten hsize := exists_inners hwritten hheight hnumber.1 hnumber.2 hsize

/-- A message that is there in any case, left out where it is the default. -/
def embedded [DecidableEq β] (number : Nat) (m : Message β) (get : α → β) (set : α → β → α)
    (hnumber : 1 ≤ number ∧ number < 536870912) (hget : ∀ a b, get (set a b) = b) : Slot α where
  field := .message number m.codec
    (fun a => if get a = m.codec.default then none else some (get a)) set
  Value := β
  get := get
  initial := m.codec.default
  Input := β
  set := set
  step := readInner m.codec
  Spells depth b payloads :=
    List.Forall₂ (Inner m depth) (if b = m.codec.default then [] else [b]) payloads
  height := m.height + 1
  pos := hnumber.1
  lt := hnumber.2
  read_of_step {depth a payload v} h := by
    refine ⟨v, ?_, hget a v⟩
    have hgetD : (if get a = m.codec.default then none else some (get a)).getD m.codec.default =
        get a := by
      split
      · rename_i he
        exact he.symm
      · rfl
    simp only [FieldCodec.message, hgetD, h, Option.map_some]
  fold_of_spells {depth b payloads} h := by
    split at h
    · rename_i hb
      cases h
      rw [hb]
      rfl
    · cases h with
      | cons hinner hnone =>
        cases hnone
        simp [hinner.read]
  delimited_of_isMap h := nomatch h
  spells_written {depth a written} hheight hwritten hsize := by
    have hitems : (if get a = m.codec.default then none else some (get a)).toList =
        if get a = m.codec.default then [] else [get a] := by
      split <;> rfl
    have hwritten : m.codec.WritesItems number _ written := hwritten
    rw [hitems] at hwritten
    exact exists_inners hwritten hheight hnumber.1 hnumber.2 hsize

/-- A list of messages. -/
def repeated (number : Nat) (m : Message β) (get : α → List β) (set : α → List β → α)
    (hnumber : 1 ≤ number ∧ number < 536870912) (hget : ∀ a bs, get (set a bs) = bs) : Slot α where
  field := .repeated number m.codec get set
  Value := List β
  get := get
  initial := []
  Input := List β
  set := set
  step depth bs payload := (readInner m.codec depth m.codec.default payload).map (bs ++ [·])
  Spells depth := List.Forall₂ (Inner m depth)
  height := m.height + 1
  pos := hnumber.1
  lt := hnumber.2
  read_of_step {depth a payload v} h := by
    obtain ⟨b, hb, rfl⟩ := Option.map_eq_some_iff.1 h
    exact ⟨get a ++ [b], by simp [FieldCodec.repeated, hb], hget ..⟩
  fold_of_spells {depth bs payloads} h := by
    suffices hfold : ∀ before, payloads.foldlM (fun bs payload =>
        (readInner m.codec depth m.codec.default payload).map (bs ++ [·])) before =
        some (before ++ bs) from hfold []
    induction h with
    | nil => simp
    | cons hinner _ ih => simp [hinner.read, ih]
  delimited_of_isMap h := nomatch h
  spells_written hheight hwritten hsize := exists_inners hwritten hheight hnumber.1 hnumber.2 hsize

/-- A map, its entries in any order. -/
def map (number : Nat) (m : Message (String × β)) (get : α → SortedMap β)
    (set : α → SortedMap β → α) (hnumber : 1 ≤ number ∧ number < 536870912)
    (hget : ∀ a map, get (set a map) = map) : Slot α where
  field := .map number m.codec get set
  Value := SortedMap β
  get := get
  initial := .empty
  Input := SortedMap β
  set := set
  step depth map payload :=
    (readInner m.codec depth m.codec.default payload).map fun e => map.insert e.1 e.2
  Spells depth map payloads :=
    ∃ entries, entries.Perm map.entries ∧ List.Forall₂ (Inner m depth) entries payloads
  height := m.height + 1
  pos := hnumber.1
  lt := hnumber.2
  read_of_step {depth a payload v} h := by
    obtain ⟨e, he, rfl⟩ := Option.map_eq_some_iff.1 h
    exact ⟨(get a).insert e.1 e.2, by simp [FieldCodec.map, he], hget ..⟩
  fold_of_spells {depth map payloads} h := by
    obtain ⟨entries, hperm, hinners⟩ := h
    rw [← SortedMap.ofList_of_perm hperm, SortedMap.ofList]
    generalize SortedMap.empty = before
    clear hperm
    induction hinners generalizing before with
    | nil => rfl
    | cons hinner _ ih => simp [hinner.read, ih]
  delimited_of_isMap _ h := by
    obtain ⟨_, -, hinners⟩ := h
    exact isDelimited_of_inners hinners
  spells_written hheight hwritten hsize := by
    obtain ⟨entries, hperm, hitems⟩ := hwritten
    obtain ⟨payloads, hinners, hforms⟩ := exists_inners hitems hheight hnumber.1 hnumber.2 hsize
    exact ⟨payloads, ⟨entries, hperm, hinners⟩, hforms⟩

end Slot

end MetalPool.Wire
