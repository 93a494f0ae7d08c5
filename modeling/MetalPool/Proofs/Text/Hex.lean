import Mathlib.Data.Bool.AllAny
import MetalPool.Text.Bytes
/-!
# Hexadecimal digits

`Spells` says without a reader which bytes digits write: two digits a byte, the
high one first, in either case. The reader takes exactly such digits
(`ofHexDigits?_eq_some_iff`), and those written for bytes are among them
(`spells_flatMap_hexPair`).
-/

namespace MetalPool.Bytes

/-- The digits in both cases. -/
def hexDigits : List Char := "0123456789abcdefABCDEF".toList

/-- The value of a digit is its place among those in lower case. -/
def hexValue (c : Char) : Nat := "0123456789abcdef".toList.idxOf c.toLower

/-- The digits write the bytes. -/
inductive Spells : List Char → Bytes → Prop where
  | nil : Spells [] []
  | cons {h l : Char} {cs : List Char} {b : UInt8} {bs : Bytes} (hh : h ∈ hexDigits) (hl : l ∈ hexDigits)
    (hb : b.toNat = 16 * hexValue h + hexValue l) (hs : Spells cs bs) : Spells (h :: l :: cs) (b :: bs)

variable {c : Char} {cs : List Char} {bs : Bytes}

/-! ## Single digits -/

/-- Characters between two others are found by their numbers. -/
theorem mem_range_of_le {low high : Char} (hlow : low ≤ c) (hhigh : c ≤ high) :
    c ∈ (List.range' low.toNat (high.toNat + 1 - low.toNat)).map Char.ofNat := by
  have hl : low.toNat ≤ c.toNat := UInt32.le_iff_toNat_le.1 hlow
  have hh : c.toNat ≤ high.toNat := UInt32.le_iff_toNat_le.1 hhigh
  exact List.mem_map.2 ⟨c.toNat, List.mem_range'_1.2 ⟨hl, by omega⟩, Char.ofNat_toNat c⟩

theorem hexDigit?_of_mem (h : c ∈ hexDigits) : hexDigit? c = some (hexValue c) := by
  have hall : ∀ c ∈ hexDigits, hexDigit? c = some (hexValue c) := List.all_iff_forall_prop.1 (by decide)
  exact hall c h

theorem hexDigit?_of_not_mem (h : c ∉ hexDigits) : hexDigit? c = none := by
  have hdigits : ∀ c ∈ (List.range' 48 10).map Char.ofNat, c ∈ hexDigits :=
    List.all_iff_forall_prop.1 (by decide)
  have hlower : ∀ c ∈ (List.range' 97 6).map Char.ofNat, c ∈ hexDigits :=
    List.all_iff_forall_prop.1 (by decide)
  have hupper : ∀ c ∈ (List.range' 65 6).map Char.ofNat, c ∈ hexDigits :=
    List.all_iff_forall_prop.1 (by decide)
  unfold hexDigit?
  rw [if_neg fun hc => h (hdigits c (mem_range_of_le hc.1 hc.2)),
    if_neg fun hc => h (hlower c (mem_range_of_le hc.1 hc.2)),
    if_neg fun hc => h (hupper c (mem_range_of_le hc.1 hc.2))]

theorem hexValue_lt (h : c ∈ hexDigits) : hexValue c < 16 := by
  have hall : ∀ c ∈ hexDigits, hexValue c < 16 := List.all_iff_forall_prop.1 (by decide)
  exact hall c h

/-- The case of a letter makes no difference. -/
theorem hexDigit?_toLower (c : Char) : hexDigit? c.toLower = hexDigit? c := by
  by_cases h : 'A' ≤ c ∧ c ≤ 'Z'
  · have hall : ∀ c ∈ (List.range' 65 26).map Char.ofNat, hexDigit? c.toLower = hexDigit? c :=
      List.all_iff_forall_prop.1 (by decide)
    exact hall c (mem_range_of_le h.1 h.2)
  · have hsame : c.toLower = c := by
      unfold Char.toLower
      exact dif_neg h
    rw [hsame]

theorem hexDigit?_digitChar {n : Nat} (h : n < 16) : hexDigit? (Nat.digitChar n) = some n := by
  have hall : ∀ n < 16, hexDigit? (Nat.digitChar n) = some n := by decide
  exact hall n h

theorem mem_hexDigits_of_hexDigit? {n : Nat} (h : hexDigit? c = some n) : c ∈ hexDigits ∧ hexValue c = n := by
  by_cases hc : c ∈ hexDigits
  · rw [hexDigit?_of_mem hc] at h
    exact ⟨hc, Option.some.inj h⟩
  · rw [hexDigit?_of_not_mem hc] at h
    cases h

/-! ## Pairs of digits -/

theorem Spells.length_eq (h : Spells cs bs) : cs.length = 2 * bs.length := by
  induction h with
  | nil => rfl
  | cons _ _ _ _ ih => simp only [List.length_cons, ih]; omega

theorem Spells.mem_hexDigits (h : Spells cs bs) : ∀ c ∈ cs, c ∈ hexDigits := by
  induction h with
  | nil => nofun
  | cons hh hl _ _ ih => exact List.forall_mem_cons.2 ⟨hh, List.forall_mem_cons.2 ⟨hl, ih⟩⟩

/-- Digits in pairs are read as the bytes that they write, and nothing else is read. -/
theorem ofHexDigits?_eq_some_iff : ofHexDigits? cs = some bs ↔ Spells cs bs := by
  constructor
  · intro h
    fun_induction ofHexDigits? cs generalizing bs with
    | case1 =>
      cases h
      exact .nil
    | case2 => cases h
    | case3 high low rest ih =>
      simp only [Option.bind_eq_bind, Option.bind_eq_some_iff, Option.pure_def, Option.some.injEq] at h
      obtain ⟨m, hm, n, hn, bs', hbs, rfl⟩ := h
      obtain ⟨hhigh, rfl⟩ := mem_hexDigits_of_hexDigit? hm
      obtain ⟨hlow, rfl⟩ := mem_hexDigits_of_hexDigit? hn
      have hfits : hexValue high * 16 + hexValue low < 256 := by
        have := hexValue_lt hhigh
        have := hexValue_lt hlow
        omega
      refine .cons hhigh hlow ?_ (ih hbs)
      rw [UInt8.toNat_ofNat_of_lt' hfits, Nat.mul_comm]
  · intro h
    induction h with
    | nil => rfl
    | @cons high low _ b _ hhigh hlow hb _ ih =>
      have hbyte : UInt8.ofNat (hexValue high * 16 + hexValue low) = b := by
        rw [Nat.mul_comm, ← hb, UInt8.ofNat_toNat]
      rw [ofHexDigits?, hexDigit?_of_mem hhigh, hexDigit?_of_mem hlow, ih]
      exact congrArg (fun b => some (b :: _)) hbyte

/-- An even number of digits writes bytes. -/
theorem exists_spells (n : Nat) (hlength : cs.length = 2 * n) (h : ∀ c ∈ cs, c ∈ hexDigits) :
    ∃ bs, Spells cs bs := by
  induction n generalizing cs with
  | zero =>
    obtain rfl := List.eq_nil_of_length_eq_zero hlength
    exact ⟨[], .nil⟩
  | succ n ih =>
    match cs with
    | [] => cases hlength
    | [_] => simp only [List.length_singleton] at hlength; omega
    | high :: low :: rest =>
      obtain ⟨hhigh, h⟩ := List.forall_mem_cons.1 h
      obtain ⟨hlow, h⟩ := List.forall_mem_cons.1 h
      simp only [List.length_cons] at hlength
      obtain ⟨bs, hs⟩ := ih (by omega) h
      have hfits : 16 * hexValue high + hexValue low < 256 := by
        have := hexValue_lt hhigh
        have := hexValue_lt hlow
        omega
      exact ⟨_, .cons hhigh hlow (UInt8.toNat_ofNat_of_lt' hfits) hs⟩

theorem ofHexDigits?_map_toLower (cs : List Char) : ofHexDigits? (cs.map Char.toLower) = ofHexDigits? cs := by
  fun_induction ofHexDigits? cs with
  | case1 => rfl
  | case2 => rfl
  | case3 high low rest ih =>
    rw [List.map_cons, List.map_cons, ofHexDigits?, ih, hexDigit?_toLower, hexDigit?_toLower]

/-- What is written for bytes spells them. -/
theorem spells_flatMap_hexPair (bs : Bytes) : Spells (bs.flatMap hexPair) bs := by
  induction bs with
  | nil => exact .nil
  | cons b rest ih =>
    have hb : b.toNat < 256 := b.toNat_lt
    have hdigit (n : Nat) (hn : n < 16) := mem_hexDigits_of_hexDigit? (hexDigit?_digitChar hn)
    obtain ⟨hhigh, hhighValue⟩ := hdigit (b.toNat / 16) (by omega)
    obtain ⟨hlow, hlowValue⟩ := hdigit (b.toNat % 16) (by omega)
    refine .cons hhigh hlow ?_ ih
    rw [hhighValue, hlowValue]
    omega

end MetalPool.Bytes
