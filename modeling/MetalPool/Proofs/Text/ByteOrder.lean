import Mathlib.Tactic.SplitIfs
import MetalPool.Text.Bytes
/-!
# The order of texts is that of their bytes

Texts compare by code point. UTF-8 keeps this order: of two characters the later
one has the larger bytes, and this is seen before either ends (`encode_lt`). So
texts in order are in the order of their UTF-8 forms (`ofText_lt_ofText_iff`).
-/

namespace MetalPool.Bytes

/-- The bytes of the characters. -/
def encode (cs : List Char) : Bytes := cs.flatMap String.utf8EncodeChar

theorem ofText_eq_encode (s : String) : ofText s = encode s.toList := by
  have hbytes : s.toByteArray = (encode s.toList).toByteArray := String.utf8Encode_toList.symm
  rw [ofText, hbytes]
  simp

/-- Of two characters the later one has the larger bytes, whatever follows each. -/
theorem encode_lt {c d : Char} (h : c < d) (rest rest' : Bytes) :
    String.utf8EncodeChar c ++ rest < String.utf8EncodeChar d ++ rest' := by
  have hlt : c.val.toNat < d.val.toNat := h
  have hmax : d.val.toNat < 1114112 := by
    rcases d.valid with hd | ⟨-, hd⟩ <;> omega
  simp only [String.utf8EncodeChar]
  generalize c.val.toNat = m at hlt ⊢
  generalize d.val.toNat = n at hlt hmax ⊢
  -- The digits of a number to base 64 are those of its quotients.
  have hdigits : ∀ k : Nat, k / 64 / 64 = k / 4096 ∧ k / 4096 / 64 = k / 262144 := fun k => by omega
  obtain ⟨hm, hm'⟩ := hdigits m
  obtain ⟨hn, hn'⟩ := hdigits n
  -- A longer form starts with a larger byte, and forms of one length differ in a digit.
  split_ifs <;>
    simp (disch := omega) only [List.cons_append, List.nil_append, List.cons_lt_cons_iff,
      UInt8.lt_iff_toNat_lt, ← UInt8.toNat_inj, UInt8.toNat_ofNat', Nat.mod_eq_of_lt] <;> omega

theorem encode_lt_encode {cs ds : List Char} (h : cs < ds) : encode cs < encode ds := by
  induction cs generalizing ds with
  | nil =>
    cases ds with
    | nil => exact absurd h (List.lt_irrefl [])
    | cons d ds =>
      have hne : String.utf8EncodeChar d ≠ [] := String.utf8EncodeChar_ne_nil
      cases hd : String.utf8EncodeChar d with
      | nil => exact absurd hd hne
      | cons b bs =>
        rw [encode, encode, List.flatMap_cons, hd]
        exact List.nil_lt_cons ..
  | cons c cs ih =>
    cases ds with
    | nil => exact absurd h (List.not_lt_nil _)
    | cons d ds =>
      rw [encode, encode, List.flatMap_cons, List.flatMap_cons]
      rcases List.cons_lt_cons_iff.1 h with hlt | ⟨rfl, hlt⟩
      · exact encode_lt hlt _ _
      · exact List.append_left_lt (ih hlt)

/-- Texts compare as their UTF-8 forms do. -/
theorem ofText_lt_ofText_iff {s t : String} : ofText s < ofText t ↔ s < t := by
  have hlt : ∀ {s t : String}, s < t → ofText s < ofText t := fun {s t} h => by
    rw [ofText_eq_encode, ofText_eq_encode]
    exact encode_lt_encode (String.lt_iff.1 h)
  refine ⟨fun h => ?_, hlt⟩
  rcases Classical.em (s < t) with hst | hst
  · exact hst
  · rcases Classical.em (t < s) with hts | hts
    · exact absurd h (List.lt_asymm (hlt hts))
    · have heq : s = t := String.le_antisymm (String.not_lt.1 hts) (String.not_lt.1 hst)
      exact absurd (heq ▸ h) (List.lt_irrefl _)

end MetalPool.Bytes
