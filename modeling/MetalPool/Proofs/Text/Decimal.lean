import Mathlib.Algebra.Group.Nat.Defs
import MetalPool.Text.Decimal
/-!
# Decimal digits are read back

Two ways to write a number: its last digits, as many as asked for, and all of
its digits without a zero in front. What digits write is `valueOf` them, and a
number up to a bound is what a reader with that bound takes (`readNumber_repr`).
-/

namespace MetalPool.Text

theorem digit?_digitChar {d : Nat} (h : d < 10) : digit? (Nat.digitChar d) = some d := by
  revert h
  revert d
  decide

theorem isDigit_digitChar {d : Nat} (h : d < 10) : isDigit (Nat.digitChar d) := by
  simp [isDigit, digit?_digitChar h]

theorem toNat_of_isDigit {c : Char} (h : isDigit c) : 48 ≤ c.toNat ∧ c.toNat ≤ 57 := by
  unfold isDigit digit? at h
  split at h
  · rename_i hc
    exact ⟨UInt32.le_iff_toNat_le.1 hc.1, UInt32.le_iff_toNat_le.1 hc.2⟩
  · cases h

@[simp] theorem valueOf_nil : valueOf [] = 0 := rfl

@[simp] theorem valueOf_append_singleton (digits : List Char) (c : Char) :
    valueOf (digits ++ [c]) = valueOf digits * 10 + (digit? c).getD 0 := by
  simp [valueOf, List.foldl_append]

theorem valueOf_le_append (digits more : List Char) : valueOf digits ≤ valueOf (digits ++ more) := by
  induction more generalizing digits with
  | nil => exact Nat.le_of_eq (congrArg valueOf (List.append_nil digits).symm)
  | cons c rest ih =>
    have hfirst : valueOf digits ≤ valueOf (digits ++ [c]) := by
      rw [valueOf_append_singleton]
      omega
    rw [List.append_cons]
    exact Nat.le_trans hfirst (ih (digits ++ [c]))

theorem valueOf_append_zeros (digits : List Char) (k : Nat) :
    valueOf (digits ++ List.replicate k '0') = valueOf digits * 10 ^ k := by
  induction k with
  | zero => simp
  | succ k ih =>
    have hzero : digit? '0' = some 0 := by decide
    rw [List.replicate_succ', ← List.append_assoc, valueOf_append_singleton, ih, hzero,
      Option.getD_some, Nat.add_zero, Nat.pow_succ, Nat.mul_assoc]

/-! ## The last digits -/

@[simp] theorem length_lastDigits (width n : Nat) : (lastDigits width n).length = width := by
  induction width generalizing n with
  | zero => rfl
  | succ width ih => simp [lastDigits, ih]

theorem isDigit_of_mem_lastDigits {width n : Nat} {c : Char} (h : c ∈ lastDigits width n) :
    isDigit c := by
  induction width generalizing n with
  | zero => simp [lastDigits] at h
  | succ width ih =>
    rw [lastDigits, List.mem_append, List.mem_singleton] at h
    rcases h with h | rfl
    · exact ih h
    · exact isDigit_digitChar (Nat.mod_lt _ (by decide))

theorem valueOf_lastDigits (width n : Nat) : valueOf (lastDigits width n) = n % 10 ^ width := by
  induction width generalizing n with
  | zero => simp [lastDigits, Nat.mod_one]
  | succ width ih =>
    rw [lastDigits, valueOf_append_singleton, ih, digit?_digitChar (Nat.mod_lt _ (by decide)),
      Option.getD_some, Nat.pow_succ, Nat.mul_comm (10 ^ width) 10, Nat.mod_mul]
    omega

/-! ## All digits -/

theorem isDigit_of_mem_toDigits {n : Nat} {c : Char} (h : c ∈ Nat.toDigits 10 n) : isDigit c := by
  induction n using Nat.strongRecOn with
  | ind n ih =>
    by_cases hn : n < 10
    · rw [Nat.toDigits_of_lt_base hn, List.mem_singleton] at h
      exact h ▸ isDigit_digitChar hn
    · rw [Nat.toDigits_of_base_le (by decide) (by omega), List.mem_append, List.mem_singleton] at h
      rcases h with h | rfl
      · exact ih (n / 10) (by omega) h
      · exact isDigit_digitChar (Nat.mod_lt _ (by decide))

theorem valueOf_toDigits (n : Nat) : valueOf (Nat.toDigits 10 n) = n := by
  induction n using Nat.strongRecOn with
  | ind n ih =>
    by_cases hn : n < 10
    · rw [Nat.toDigits_of_lt_base hn, ← List.nil_append [n.digitChar], valueOf_append_singleton,
        digit?_digitChar hn]
      simp
    · rw [Nat.toDigits_of_base_le (by decide) (by omega), valueOf_append_singleton,
        ih (n / 10) (by omega), digit?_digitChar (Nat.mod_lt _ (by decide)), Option.getD_some]
      omega

/-- Only zero is written with a zero in front. -/
theorem eq_zero_of_toDigits {n : Nat} {cs : List Char} (h : Nat.toDigits 10 n = '0' :: cs) :
    n = 0 := by
  induction n using Nat.strongRecOn generalizing cs with
  | ind n ih =>
    by_cases hn : n < 10
    · rw [Nat.toDigits_of_lt_base hn] at h
      have hzero : digit? n.digitChar = some 0 := by
        rw [(List.cons.inj h).1]
        decide
      exact Option.some.inj ((digit?_digitChar hn).symm.trans hzero)
    · rw [Nat.toDigits_of_base_le (by decide) (by omega)] at h
      cases hd : Nat.toDigits 10 (n / 10) with
      | nil => exact absurd hd Nat.toDigits_ne_nil
      | cons d ds =>
        rw [hd, List.cons_append] at h
        rw [(List.cons.inj h).1] at hd
        have := ih (n / 10) (by omega) hd
        omega

/-! ## Numbers up to a bound -/

theorem le_of_readDigits {max n m : Nat} {cs : List Char} (hn : n ≤ max)
    (h : readDigits max n cs = .ok m) : m ≤ max := by
  induction cs generalizing n with
  | nil =>
    cases h
    exact hn
  | cons c rest ih =>
    rw [readDigits] at h
    split at h
    · cases h
    · split at h
      · rename_i hle
        exact ih hle h
      · cases h

theorem le_of_readNumber {max n : Nat} {s : String} (h : readNumber max s = .ok n) : n ≤ max := by
  unfold readNumber at h
  split at h
  · cases h
  · cases h
  · exact le_of_readDigits (Nat.zero_le _) h
  · exact le_of_readDigits (Nat.zero_le _) h

/-- Digits are read one by one as long as the number they make stays within the bound. -/
theorem readDigits_of_isDigit {max : Nat} {before cs : List Char} (hcs : ∀ c ∈ cs, isDigit c)
    (h : valueOf (before ++ cs) ≤ max) :
    readDigits max (valueOf before) cs = .ok (valueOf (before ++ cs)) := by
  induction cs generalizing before with
  | nil => rw [List.append_nil]; rfl
  | cons c rest ih =>
    obtain ⟨hc, hrest⟩ := List.forall_mem_cons.1 hcs
    obtain ⟨d, hd⟩ := Option.isSome_iff_exists.1 hc
    rw [List.append_cons] at h ⊢
    have hnext : valueOf (before ++ [c]) = valueOf before * 10 + d := by
      rw [valueOf_append_singleton, hd, Option.getD_some]
    have hle : valueOf before * 10 + d ≤ max :=
      hnext ▸ Nat.le_trans (valueOf_le_append (before ++ [c]) rest) h
    rw [readDigits]
    simp only [hd, if_pos hle]
    rw [← hnext]
    exact ih hrest h

theorem readNumber_repr {max n : Nat} (h : n ≤ max) : readNumber max n.repr = .ok n := by
  have hdigits : ∀ c ∈ Nat.toDigits 10 n, isDigit c := fun c hc => isDigit_of_mem_toDigits hc
  have hread : readDigits max 0 (Nat.toDigits 10 n) = .ok n := by
    have hle : valueOf ([] ++ Nat.toDigits 10 n) ≤ max := by
      rw [List.nil_append, valueOf_toDigits]
      exact h
    have hall := readDigits_of_isDigit hdigits hle
    rwa [List.nil_append, valueOf_toDigits] at hall
  have hplus : '+' ∉ Nat.toDigits 10 n := fun hc => by
    have hd := hdigits '+' hc
    exact absurd hd (by decide)
  unfold readNumber
  rw [Nat.repr, String.toList_ofList]
  split
  · rename_i hnil
    exact absurd hnil Nat.toDigits_ne_nil
  · rename_i hcs
    exact absurd (hcs ▸ List.mem_cons_self) hplus
  · rename_i hcs
    exact absurd (hcs ▸ List.mem_cons_self) hplus
  · exact hread

end MetalPool.Text
