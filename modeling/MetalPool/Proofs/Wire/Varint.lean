import Mathlib.Algebra.Group.Nat.Defs
import MetalPool.Wire.Varint
/-!
# Numbers written and read

A number has many forms of seven bits a byte: the one that is written and longer
ones, whose last bytes are zero. All of those of at most ten bytes are read back
(`IsVarint.read`), and the written one is among them for every number of 64 bits
(`isVarint_write`).
-/

namespace MetalPool.Wire

variable {n : Nat} {bs : Bytes}

/-- The bytes give the number, seven bits each, the lowest first. -/
inductive VarintForm : Nat → Bytes → Prop where
  | last (b : UInt8) (h : b < 128) : VarintForm b.toNat [b]
  | more (b : UInt8) (h : ¬b < 128) {n : Nat} {bs : Bytes} (rest : VarintForm n bs) :
    VarintForm (b.toNat - 128 + 128 * n) (b :: bs)

/-- The bytes are a form of a number of 64 bits, in at most ten bytes. -/
structure IsVarint (n : Nat) (bs : Bytes) : Prop where
  form : VarintForm n bs
  length_le : bs.length ≤ 10
  lt : n < 18446744073709551616

theorem VarintForm.length_pos (h : VarintForm n bs) : 0 < bs.length := by
  cases h <;> exact Nat.succ_pos _

/-! ## Reading -/

/-- With `left` of ten bytes to go, what is still to come is the lower for that. -/
theorem VarintForm.readWithin (h : VarintForm n bs) {left : Nat} (hlength : bs.length ≤ left)
    (hleft : left ≤ 10) (hlt : n * 128 ^ (10 - left) < 18446744073709551616) (rest : Bytes) :
    readVarintWithin left (bs ++ rest) = some (n, rest) := by
  induction h generalizing left with
  | last b hb =>
    cases left with
    | zero => cases hlength
    | succ left =>
      have hten : ¬(left = 0 ∧ 1 < b) := by
        rintro ⟨rfl, hone⟩
        have : 1 < b.toNat := UInt8.lt_iff_toNat_lt.1 hone
        simp at hlt
        omega
      rw [List.singleton_append, readVarintWithin, if_pos hb, if_neg hten]
  | more b hb hrest ih =>
    rename_i n bs
    cases left with
    | zero => cases hlength
    | succ left =>
      have hpow : 128 ^ (10 - left) = 128 * 128 ^ (10 - (left + 1)) := by
        rw [← Nat.pow_succ', show 10 - left = 10 - (left + 1) + 1 by omega]
      have hread : readVarintWithin left (bs ++ rest) = some (n, rest) := by
        refine ih (Nat.le_of_succ_le_succ hlength) (by omega) ?_
        calc n * 128 ^ (10 - left) = 128 * n * 128 ^ (10 - (left + 1)) := by
              rw [hpow, ← Nat.mul_assoc, Nat.mul_comm n]
          _ ≤ (b.toNat - 128 + 128 * n) * 128 ^ (10 - (left + 1)) :=
            Nat.mul_le_mul_right _ (Nat.le_add_left ..)
          _ < 18446744073709551616 := hlt
      rw [List.cons_append, readVarintWithin, if_neg hb, hread]
      rfl

theorem IsVarint.read (h : IsVarint n bs) (rest : Bytes) : readVarint (bs ++ rest) = some (n, rest) :=
  h.form.readWithin h.length_le (Nat.le_refl _) (by simpa using h.lt) rest

/-! ## Writing -/

theorem varintForm_write (n : Nat) : VarintForm n (writeVarint n) := by
  induction n using writeVarint.induct with
  | case1 n hlt =>
    have hbyte : (UInt8.ofNat n).toNat = n := by
      rw [UInt8.toNat_ofNat']
      omega
    have hlast := VarintForm.last (UInt8.ofNat n) (UInt8.lt_iff_toNat_lt.2 (by rw [hbyte]; exact hlt))
    rw [writeVarint, if_pos hlt]
    rwa [hbyte] at hlast
  | case2 n hlt ih =>
    have hbyte : (UInt8.ofNat (n % 128 + 128)).toNat = n % 128 + 128 := by
      rw [UInt8.toNat_ofNat']
      omega
    have hnot : ¬ UInt8.ofNat (n % 128 + 128) < 128 := by
      intro hlow
      have hlow : (UInt8.ofNat (n % 128 + 128)).toNat < 128 := UInt8.lt_iff_toNat_lt.1 hlow
      omega
    have hmore := VarintForm.more (UInt8.ofNat (n % 128 + 128)) hnot ih
    rw [writeVarint, if_neg hlt]
    have hn : (UInt8.ofNat (n % 128 + 128)).toNat - 128 + 128 * (n / 128) = n := by
      rw [hbyte]
      omega
    rwa [hn] at hmore

theorem length_writeVarint_le {k : Nat} (h : n < 128 ^ (k + 1)) : (writeVarint n).length ≤ k + 1 := by
  induction k generalizing n with
  | zero =>
    rw [writeVarint, if_pos (by simpa using h)]
    exact Nat.le_refl _
  | succ k ih =>
    rw [writeVarint]
    split
    · simp
    · have hdiv : n / 128 < 128 ^ (k + 1) := Nat.div_lt_of_lt_mul (by rwa [← Nat.pow_succ'])
      exact Nat.succ_le_succ (ih hdiv)

theorem isVarint_write (h : n < 18446744073709551616) : IsVarint n (writeVarint n) :=
  ⟨varintForm_write n, length_writeVarint_le (k := 9) (Nat.lt_trans h (by decide)), h⟩

end MetalPool.Wire
