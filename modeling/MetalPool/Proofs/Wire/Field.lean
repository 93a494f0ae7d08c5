import MetalPool.Proofs.Wire.Varint
import MetalPool.Wire.Field
/-!
# The form of fields

`FieldForm` says which bytes are a field of a message: a key, and contents of the
kind that the key names. Groups may hold any fields and other groups, and as many
levels of them may be open as `depth` says. Bytes of that form are split off by
the reader, whatever follows them (`FieldForm.read`), and a sequence of fields is
split into its fields (`FieldsForm.read`).
-/

namespace MetalPool.Wire

variable {number depth : Nat} {kind : Kind} {bs key : Bytes} {isMap : Nat → Bool}

/-! ## Keys and contents -/

/-- The bytes are the key of a field with that number and kind. -/
structure IsKey (number : Nat) (kind : Kind) (bs : Bytes) : Prop where
  pos : 1 ≤ number
  varint : ∃ code, Kind.ofCode? code = some kind ∧ code < 8 ∧ number * 8 + code < 4294967296 ∧
    IsVarint (number * 8 + code) bs

theorem IsKey.length_pos (h : IsKey number kind bs) : 0 < bs.length := by
  obtain ⟨_, -, -, -, h⟩ := h.varint
  exact h.form.length_pos

theorem IsKey.read (h : IsKey number kind bs) (rest : Bytes) :
    readKey (bs ++ rest) = some (number, kind, rest) := by
  obtain ⟨hpos, code, hkind, hcode, hlt, hvarint⟩ := h
  have hmod : (number * 8 + code) % 8 = code := by omega
  have hdiv : (number * 8 + code) / 8 = number := by omega
  unfold readKey
  rw [hvarint.read]
  simp only [Option.bind_eq_bind, Option.bind_some, hmod, hdiv, hkind]
  rw [if_pos ⟨hlt, hpos⟩]

theorem isKey_write {code : Nat} (hkind : Kind.ofCode? code = some kind) (hcode : code < 8)
    (hpos : 1 ≤ number) (hlt : number < 536870912) : IsKey number kind (writeKey number code) :=
  ⟨hpos, code, hkind, hcode, by omega, isVarint_write (by omega)⟩

/-- The bytes are their number and then they themselves. -/
def IsDelimited (payload bs : Bytes) : Prop :=
  ∃ length, IsVarint payload.length length ∧ bs = length ++ payload

theorem IsDelimited.read {payload : Bytes} (h : IsDelimited payload bs) (rest : Bytes) :
    readDelimited (bs ++ rest) = some (payload, rest) := by
  obtain ⟨length, hlength, rfl⟩ := h
  unfold readDelimited
  rw [List.append_assoc, hlength.read]
  simp

/-- What may stand after a key that opens no group. -/
inductive Contents : Payload → Kind → Bytes → Prop where
  | varint {n : Nat} {bs : Bytes} (h : IsVarint n bs) : Contents (.varint n) .varint bs
  | fixed64 {bs : Bytes} (h : bs.length = 8) : Contents .fixed64 .fixed64 bs
  | delimited {payload bs : Bytes} (h : IsDelimited payload bs) :
    Contents (.delimited payload) .delimited bs
  | fixed32 {bs : Bytes} (h : bs.length = 4) : Contents .fixed32 .fixed32 bs

theorem skip?_append {n : Nat} (h : bs.length = n) (rest : Bytes) : skip? n (bs ++ rest) = some rest := by
  unfold skip?
  rw [if_pos (by simp [h]), List.drop_left' h]

/-! ## Groups -/

/-- The bytes are the fields of a group and its end, where as many levels may be open as `depth` says. -/
inductive GroupBody : Nat → Nat → Bytes → Prop where
  | close {depth number : Nat} {key : Bytes} (h : IsKey number .groupEnd key) :
    GroupBody (depth + 1) number key
  | field {depth number inner : Nat} {kind : Kind} {key bs rest : Bytes} {payload : Payload}
    (hkey : IsKey inner kind key) (h : Contents payload kind bs)
    (hrest : GroupBody (depth + 2) number rest) : GroupBody (depth + 2) number (key ++ bs ++ rest)
  | group {depth number inner : Nat} {key body rest : Bytes} (hkey : IsKey inner .groupStart key)
    (h : GroupBody (depth + 1) inner body) (hrest : GroupBody (depth + 2) number rest) :
    GroupBody (depth + 2) number (key ++ body ++ rest)

theorem skipGroup_zero (fuel number : Nat) (bs : Bytes) : skipGroup fuel 0 number bs = none := by
  cases fuel <;> rfl

/-- In the last group that may be open nothing can stand but its end. -/
theorem skipGroup_one (hkey : IsKey number kind key) (hkind : kind ≠ .groupEnd) (fuel outer : Nat)
    (rest : Bytes) : skipGroup fuel 1 outer (key ++ rest) = none := by
  cases fuel with
  | zero => rfl
  | succ fuel => simp [skipGroup, hkey.read, hkind]

/-- A field in a group is passed over, and then the rest of the group. -/
theorem skipGroup_field {payload : Payload} (hkey : IsKey number kind key) (h : Contents payload kind bs)
    (fuel depth outer : Nat) (rest : Bytes) :
    skipGroup (fuel + 1) (depth + 2) outer (key ++ bs ++ rest) = skipGroup fuel (depth + 2) outer rest := by
  rw [List.append_assoc]
  cases h with
  | varint h => simp [skipGroup, hkey.read, h.read]
  | fixed64 h => simp [skipGroup, hkey.read, skip?_append h]
  | delimited h => simp [skipGroup, hkey.read, h.read]
  | fixed32 h => simp [skipGroup, hkey.read, skip?_append h]

theorem skipGroup_group (hkey : IsKey number .groupStart key) (fuel depth outer : Nat) (bs : Bytes) :
    skipGroup (fuel + 1) (depth + 2) outer (key ++ bs) =
      (skipGroup fuel (depth + 1) number bs).bind (skipGroup fuel (depth + 2) outer) := by
  simp [skipGroup, hkey.read]

theorem Contents.ne_groupEnd {payload : Payload} (h : Contents payload kind bs) : kind ≠ .groupEnd := by
  cases h <;> simp

theorem GroupBody.skip (h : GroupBody depth number bs) {fuel : Nat} (hfuel : bs.length ≤ fuel)
    (later : Bytes) : skipGroup fuel depth number (bs ++ later) = some later := by
  induction h generalizing fuel later with
  | close hkey =>
    have hpos := hkey.length_pos
    obtain ⟨fuel, rfl⟩ : ∃ more, fuel = more + 1 := ⟨fuel - 1, by omega⟩
    simp [skipGroup, hkey.read]
  | field hkey h hrest ih =>
    rename_i key bs rest _
    have hpos := hkey.length_pos
    rw [List.length_append, List.length_append] at hfuel
    obtain ⟨fuel, rfl⟩ : ∃ more, fuel = more + 1 := ⟨fuel - 1, by omega⟩
    rw [List.append_assoc (key ++ bs), skipGroup_field hkey h]
    exact ih (by omega) later
  | group hkey h hrest ih ihrest =>
    rename_i key body rest
    have hpos := hkey.length_pos
    rw [List.length_append, List.length_append] at hfuel
    obtain ⟨fuel, rfl⟩ : ∃ more, fuel = more + 1 := ⟨fuel - 1, by omega⟩
    rw [List.append_assoc, List.append_assoc, skipGroup_group hkey, ih (by omega) (rest ++ later)]
    exact ihrest (by omega) later

/-- A group that nests too deep for the reader is refused. The induction is on the group, so that what
is refused may stand at any depth in it. -/
theorem GroupBody.fits_or_refused (h : GroupBody depth number bs) (limit : Nat) :
    GroupBody limit number bs ∨
      ∀ fuel later, bs.length ≤ fuel → skipGroup fuel limit number (bs ++ later) = none := by
  induction h generalizing limit with
  | close hkey =>
    cases limit with
    | zero => exact .inr fun fuel later _ => skipGroup_zero ..
    | succ limit => exact .inl (.close hkey)
  | field hkey h hrest ih =>
    rename_i key bs rest _
    match limit with
    | 0 => exact .inr fun fuel later _ => skipGroup_zero ..
    | 1 =>
      refine .inr fun fuel later _ => ?_
      rw [List.append_assoc, List.append_assoc]
      exact skipGroup_one hkey h.ne_groupEnd ..
    | limit + 2 =>
      refine (ih (limit + 2)).imp (.field hkey h) fun hrefused fuel later hfuel => ?_
      have hpos := hkey.length_pos
      rw [List.length_append, List.length_append] at hfuel
      obtain ⟨fuel, rfl⟩ : ∃ more, fuel = more + 1 := ⟨fuel - 1, by omega⟩
      rw [List.append_assoc (key ++ bs), skipGroup_field hkey h]
      exact hrefused fuel later (by omega)
  | group hkey h hrest ih ihrest =>
    rename_i key body rest
    match limit with
    | 0 => exact .inr fun fuel later _ => skipGroup_zero ..
    | 1 =>
      refine .inr fun fuel later _ => ?_
      rw [List.append_assoc, List.append_assoc]
      exact skipGroup_one hkey nofun ..
    | limit + 2 =>
      have hpos := hkey.length_pos
      -- The inner group has one level less; if it fits, what is refused is in the rest of the outer one.
      rcases ih (limit + 1) with hbody | hrefused
      · refine (ihrest (limit + 2)).imp (.group hkey hbody) fun hrefused fuel later hfuel => ?_
        rw [List.length_append, List.length_append] at hfuel
        obtain ⟨fuel, rfl⟩ : ∃ more, fuel = more + 1 := ⟨fuel - 1, by omega⟩
        rw [List.append_assoc, List.append_assoc, skipGroup_group hkey,
          hbody.skip (by omega) (rest ++ later)]
        exact hrefused fuel later (by omega)
      · refine .inr fun fuel later hfuel => ?_
        rw [List.length_append, List.length_append] at hfuel
        obtain ⟨fuel, rfl⟩ : ∃ more, fuel = more + 1 := ⟨fuel - 1, by omega⟩
        rw [List.append_assoc, List.append_assoc, skipGroup_group hkey,
          hrefused fuel (rest ++ later) (by omega)]
        rfl

/-- Groups inside each other. -/
theorem GroupBody.nested {b e : UInt8} (hstart : IsKey number .groupStart [b])
    (hend : IsKey number .groupEnd [e]) {n : Nat} (h : n < depth) :
    GroupBody depth number (List.replicate n b ++ List.replicate (n + 1) e) := by
  induction n generalizing depth with
  | zero =>
    obtain ⟨depth, rfl⟩ := Nat.exists_eq_add_of_le' h
    exact .close hend
  | succ n ih =>
    obtain ⟨depth, rfl⟩ := Nat.exists_eq_add_of_le' h
    have hinner : GroupBody (depth + n + 1) number (List.replicate n b ++ List.replicate (n + 1) e) :=
      ih (by omega)
    have hbody := GroupBody.group hstart hinner (.close hend)
    rwa [← List.append_assoc, List.append_assoc _ _ [e], ← List.replicate_succ', List.singleton_append,
      ← List.replicate_succ] at hbody

/-! ## Fields -/

/-- The bytes are a field with that number and payload, at a place where groups may nest as deep as
`depth` says. -/
inductive FieldForm (depth number : Nat) : Payload → Bytes → Prop where
  | plain {kind : Kind} {payload : Payload} {key bs : Bytes} (hkey : IsKey number kind key)
    (h : Contents payload kind bs) : FieldForm depth number payload (key ++ bs)
  | group {key body : Bytes} (hkey : IsKey number .groupStart key) (h : GroupBody depth number body) :
    FieldForm depth number .group (key ++ body)

/-- Groups inside each other are one field where so many levels may be open. -/
theorem FieldForm.groups {b e : UInt8} (hstart : IsKey number .groupStart [b])
    (hend : IsKey number .groupEnd [e]) {n : Nat} (h : n < depth) :
    FieldForm depth number .group (List.replicate (n + 1) b ++ List.replicate (n + 1) e) := by
  rw [List.replicate_succ, List.cons_append]
  exact .group hstart (.nested hstart hend h)

theorem FieldForm.length_pos {payload : Payload} (h : FieldForm depth number payload bs) :
    0 < bs.length := by
  cases h with
  | plain hkey | group hkey =>
    rw [List.length_append]
    exact Nat.add_pos_left hkey.length_pos _

/-- The entries of a map are no groups. -/
theorem not_isMap_of_group (h : isMap number → ∃ bytes, Payload.group = .delimited bytes) :
    isMap number = false := by
  cases hnumber : isMap number with
  | false => rfl
  | true =>
    obtain ⟨_, he⟩ := h hnumber
    cases he

theorem readField_group (hkey : IsKey number .groupStart key) (hnot : isMap number = false) (bs : Bytes) :
    readField isMap depth (key ++ bs) =
      (skipGroup bs.length depth number bs).map fun later => ((number, .group), later) := by
  unfold readField
  rw [hkey.read]
  simp only [Option.bind_eq_bind, Option.bind_some, hnot, Option.map_eq_bind]
  rfl

theorem FieldForm.read {payload : Payload} (h : FieldForm depth number payload bs)
    (hmap : isMap number → ∃ bytes, payload = .delimited bytes) (rest : Bytes) :
    readField isMap depth (bs ++ rest) = some ((number, payload), rest) := by
  cases h with
  | plain hkey h =>
    rw [List.append_assoc]
    cases hnumber : isMap number with
    | false =>
      cases h with
      | varint h => simp [readField, hkey.read, hnumber, h.read]
      | fixed64 h => simp [readField, hkey.read, hnumber, skip?_append h]
      | delimited h => simp [readField, hkey.read, hnumber, h.read]
      | fixed32 h => simp [readField, hkey.read, hnumber, skip?_append h]
    | true =>
      obtain ⟨bytes, rfl⟩ := hmap hnumber
      cases h with
      | delimited h => simp [readField, hkey.read, hnumber, h.read]
  | group hkey h =>
    rename_i key body
    rw [List.append_assoc, readField_group hkey (not_isMap_of_group hmap),
      h.skip (by simp) rest]
    rfl

/-- A field that is a group nested too deep for the reader is refused, and any other fits. -/
theorem FieldForm.fits_or_refused {payload : Payload} (h : FieldForm depth number payload bs)
    (hmap : isMap number → ∃ bytes, payload = .delimited bytes) (limit : Nat) :
    FieldForm limit number payload bs ∨ ∀ later, readField isMap limit (bs ++ later) = none := by
  cases h with
  | plain hkey h => exact .inl (.plain hkey h)
  | group hkey h =>
    rename_i key body
    refine (h.fits_or_refused limit).imp (.group hkey) fun hrefused later => ?_
    rw [List.append_assoc, readField_group hkey (not_isMap_of_group hmap),
      hrefused _ later (by simp)]
    rfl

/-- The bytes are a sequence of fields. -/
inductive FieldsForm (depth : Nat) : List (Nat × Payload) → Bytes → Prop where
  | nil : FieldsForm depth [] []
  | cons {number : Nat} {payload : Payload} {fields : List (Nat × Payload)} {bs rest : Bytes}
    (h : FieldForm depth number payload bs) (hrest : FieldsForm depth fields rest) :
    FieldsForm depth ((number, payload) :: fields) (bs ++ rest)

theorem readFieldsWithin_zero (hpos : 0 < bs.length) : readFieldsWithin isMap depth 0 bs = none := by
  cases bs with
  | nil => cases hpos
  | cons b bs => rfl

/-- Bytes that are left hold a field and then the rest. -/
theorem readFieldsWithin_succ (hpos : 0 < bs.length) (fuel : Nat) :
    readFieldsWithin isMap depth (fuel + 1) bs =
      (readField isMap depth bs).bind fun e => (readFieldsWithin isMap depth fuel e.2).map (e.1 :: ·) := by
  cases bs with
  | nil => cases hpos
  | cons b bs =>
    simp only [readFieldsWithin, Option.map_eq_bind]
    rfl

theorem FieldsForm.readWithin {fields : List (Nat × Payload)} (h : FieldsForm depth fields bs)
    (hmap : ∀ field ∈ fields, isMap field.1 → ∃ bytes, field.2 = .delimited bytes) {fuel : Nat}
    (hfuel : bs.length ≤ fuel) : readFieldsWithin isMap depth fuel bs = some fields := by
  induction h generalizing fuel with
  | nil => unfold readFieldsWithin; rfl
  | cons h hrest ih =>
    rename_i number payload fields bs rest
    obtain ⟨hfirst, hlater⟩ := List.forall_mem_cons.1 hmap
    have hpos := h.length_pos
    rw [List.length_append] at hfuel
    obtain ⟨fuel, rfl⟩ : ∃ more, fuel = more + 1 := ⟨fuel - 1, by omega⟩
    have hreads : readFieldsWithin isMap depth fuel rest = some fields := ih hlater (by omega)
    rw [readFieldsWithin_succ (by rw [List.length_append]; omega), h.read hfirst rest]
    simp [hreads]

theorem FieldsForm.read {fields : List (Nat × Payload)} (h : FieldsForm depth fields bs)
    (hmap : ∀ field ∈ fields, isMap field.1 → ∃ bytes, field.2 = .delimited bytes) :
    readFields isMap depth bs = some fields :=
  h.readWithin hmap (Nat.le_refl _)

/-! ## Written fields -/

theorem fieldForm_writeNumber {n : Nat} (hpos : 1 ≤ number) (hlt : number < 536870912)
    (hn : n < 18446744073709551616) : FieldForm depth number (.varint n) (writeNumber number n) :=
  .plain (isKey_write rfl (by decide) hpos hlt) (.varint (isVarint_write hn))

theorem fieldForm_writeDelimited {payload : Bytes} (hpos : 1 ≤ number) (hlt : number < 536870912)
    (hn : payload.length < 18446744073709551616) :
    FieldForm depth number (.delimited payload) (writeDelimited number payload) := by
  have hkey : IsKey number .delimited (writeKey number 2) := isKey_write rfl (by decide) hpos hlt
  unfold writeDelimited
  rw [List.append_assoc]
  exact .plain hkey (.delimited ⟨_, isVarint_write hn, rfl⟩)

theorem length_lt_writeDelimited (number : Nat) (payload : Bytes) :
    payload.length < (writeDelimited number payload).length := by
  have hlength := (varintForm_write payload.length).length_pos
  unfold writeDelimited
  rw [List.length_append, List.length_append]
  omega

end MetalPool.Wire
