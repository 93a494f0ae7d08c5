import Mathlib.Data.Nat.Fib.Basic
import MetalPool.Backoff
/-!
# Waits of a Fibonacci backoff

The two numbers that a backoff keeps are consecutive members of the Fibonacci
sequence in units of the first wait, cut off at the longest (`after_waits`), and
so is the wait it gives (`wait_after`). Nothing wraps as long as the longest wait
fits when it is counted in seconds. Starting a backoff over at any time leaves
it as at its start, so that after any calls the wait counts those since the last
reset (`waits_follow_fibonacci`).
-/

namespace MetalPool.Backoff

/-- The backoff `n` waits later. -/
def after (b : Backoff) : Nat → Backoff
  | 0 => b
  | n + 1 => (b.after n).next.2

theorem after_bounds (b : Backoff) (n : Nat) : (b.after n).min = b.min ∧ (b.after n).max = b.max := by
  induction n with
  | zero => exact ⟨rfl, rfl⟩
  | succ n ih => exact ih

theorem longest_after (first longest : UInt64) (n : Nat) :
    ((start first longest).after n).max = longest :=
  ((start first longest).after_bounds n).2

/-- A backoff that is started over is as at its start, however often it waited. -/
theorem reset_after (first longest : UInt64) (n : Nat) :
    ((start first longest).after n).reset = start first longest := by
  have hmin : ((start first longest).after n).min = first := ((start first longest).after_bounds n).1
  have hmax := longest_after first longest n
  unfold reset
  rw [hmin]
  generalize (start first longest).after n = b at hmin hmax
  cases b
  cases hmin
  cases hmax
  rfl

variable {b : Backoff} {first longest : UInt64}

/-- One wait more, as numbers: nothing wraps. -/
theorem toNat_next {m n : Nat} (hlongest : b.max = longest) (hmax : 60 * longest.toNat < 2 ^ 64)
    (hprevious : b.previous.toNat = Min.min m longest.toNat)
    (hcurrent : b.current.toNat = Min.min n longest.toNat) :
    b.next.1.toNat = 60 * Min.min n longest.toNat ∧
      b.next.2.current.toNat = Min.min (m + n) longest.toNat := by
  have hwait : (b.current * 60).toNat = 60 * b.current.toNat := by
    rw [UInt64.toNat_mul, show (60 : UInt64).toNat = 60 from rfl]
    omega
  have hsum : (b.previous + b.current).toNat = b.previous.toNat + b.current.toNat := by
    rw [UInt64.toNat_add]
    omega
  refine ⟨hwait.trans (by rw [hcurrent]), ?_⟩
  unfold next
  rw [hlongest]
  dsimp only
  split
  · rename_i hle
    rw [UInt64.le_iff_toNat_le] at hle
    omega
  · rename_i hle
    rw [UInt64.le_iff_toNat_le] at hle
    omega

/-- The last wait and the one to come after `n` waits, in minutes. -/
theorem after_waits (h : first ≤ longest) (hmax : 60 * longest.toNat < 2 ^ 64) (n : Nat) :
    ((start first longest).after n).previous.toNat = Min.min (n.fib * first.toNat) longest.toNat ∧
      ((start first longest).after n).current.toNat =
        Min.min ((n + 1).fib * first.toNat) longest.toNat := by
  induction n with
  | zero =>
    rw [UInt64.le_iff_toNat_le] at h
    refine ⟨?_, ?_⟩
    · rw [Nat.fib_zero, Nat.zero_mul, Nat.zero_min]
      rfl
    · rw [Nat.fib_one, Nat.one_mul, Nat.min_eq_left h]
      rfl
  | succ n ih =>
    obtain ⟨hprevious, hcurrent⟩ := ih
    obtain ⟨-, hnext⟩ := toNat_next (longest_after first longest n) hmax hprevious hcurrent
    refine ⟨hcurrent, hnext.trans ?_⟩
    rw [Nat.fib_add_two, Nat.add_mul]

/-- The wait after `n` others, in seconds. -/
theorem wait_after (h : first ≤ longest) (hmax : 60 * longest.toNat < 2 ^ 64) (n : Nat) :
    ((start first longest).after n).next.1.toNat =
      60 * Min.min ((n + 1).fib * first.toNat) longest.toNat := by
  obtain ⟨hprevious, hcurrent⟩ := after_waits h hmax n
  exact (toNat_next (longest_after first longest n) hmax hprevious hcurrent).1

/-! ## Calls in any order -/

inductive Call where
  | next
  | reset
deriving DecidableEq, Repr

/-- The backoff once the call was made. -/
def apply (b : Backoff) : Call → Backoff
  | .next => b.next.2
  | .reset => b.reset

/-- The backoff after the calls, the last one listed first. -/
def afterCalls (b : Backoff) : List Call → Backoff
  | [] => b
  | c :: earlier => (b.afterCalls earlier).apply c

/-- How many waits were given since the last reset. -/
def waitsGiven (calls : List Call) : Nat := (calls.takeWhile (· ≠ .reset)).length

/-- Neither the wait in seconds nor the sum that comes next is too large for 64 bits. -/
structure Fits (b : Backoff) : Prop where
  wait : b.current.toNat * 60 < 2 ^ 64
  sum : b.previous.toNat + b.current.toNat < 2 ^ 64

variable {calls between : List Call}

theorem waitsGiven_append (h : .reset ∉ between) :
    waitsGiven (between ++ calls) = between.length + waitsGiven calls := by
  have hgoes : ∀ c ∈ between, decide (c ≠ .reset) = true := by
    intro c hc
    rw [decide_eq_true_iff]
    rintro rfl
    exact h hc
  unfold waitsGiven
  rw [List.takeWhile_append_of_pos hgoes, List.length_append]

/-- Of the calls made only the waits since the last reset show. -/
theorem afterCalls_start (first longest : UInt64) (calls : List Call) :
    (start first longest).afterCalls calls = (start first longest).after (waitsGiven calls) := by
  induction calls with
  | nil => rfl
  | cons c earlier ih =>
    rw [afterCalls, ih]
    cases c with
    | next => rfl
    | reset => exact reset_after first longest _

theorem fits_after (h : first ≤ longest) (hmax : 60 * longest.toNat < 2 ^ 64) (n : Nat) :
    ((start first longest).after n).Fits := by
  obtain ⟨hprevious, hcurrent⟩ := after_waits h hmax n
  exact ⟨by omega, by omega⟩

theorem wait_mono (h : first ≤ longest) (hmax : 60 * longest.toNat < 2 ^ 64) {m n : Nat}
    (hmn : m ≤ n) :
    ((start first longest).after m).next.1 ≤ ((start first longest).after n).next.1 := by
  rw [UInt64.le_iff_toNat_le, wait_after h hmax, wait_after h hmax]
  have hfib : (m + 1).fib * first.toNat ≤ (n + 1).fib * first.toNat :=
    Nat.mul_le_mul_right _ (Nat.fib_mono (Nat.succ_le_succ hmn))
  omega

/-- A backoff whose longest wait fits when it is counted in seconds gives as its `n`th wait since the start
or the last reset 60 s times the `n`th Fibonacci number of first waits, cut off at the longest. No sum and
no product on the way wraps, however many calls are made. From one reset to the next no wait is shorter
than one before. -/
theorem waits_follow_fibonacci (h : first ≤ longest) (hmax : 60 * longest.toNat < 2 ^ 64)
    (calls : List Call) :
    let b := (start first longest).afterCalls calls
    let n := waitsGiven calls + 1
    b.next.1.toNat = 60 * Min.min (n.fib * first.toNat) longest.toNat ∧
    b.next.1.toNat ≤ 60 * longest.toNat ∧
    b.Fits ∧
    ∀ between, .reset ∉ between →
      b.next.1 ≤ ((start first longest).afterCalls (between ++ calls)).next.1 := by
  intro b n
  have hb : b = (start first longest).after (waitsGiven calls) := afterCalls_start ..
  have hwait : b.next.1.toNat = 60 * Min.min (n.fib * first.toNat) longest.toNat := by
    rw [hb]
    exact wait_after h hmax _
  refine ⟨hwait, ?_, ?_, ?_⟩
  · rw [hwait]
    exact Nat.mul_le_mul_left 60 (Nat.min_le_right ..)
  · rw [hb]
    exact fits_after h hmax _
  · intro between hbetween
    rw [hb, afterCalls_start, waitsGiven_append hbetween]
    exact wait_mono h hmax (Nat.le_add_left ..)

/-- The longest wait of which the seconds still fit comes third, since the first two together are past it. -/
theorem waits_follow_fibonacci_longest :
    let first : UInt64 := 200000000000000000
    let longest : UInt64 := 307445734561825860
    let b := (start first longest).afterCalls [.next, .next, .reset, .next]
    first ≤ longest ∧ 60 * longest.toNat < 2 ^ 64 ∧
    b.next.1.toNat = 18446744073709551600 ∧ b.Fits ∧
    ((start first longest).afterCalls [.reset, .next]).next.1 ≤ b.next.1 := by
  intro first longest b
  have h : first ≤ longest := by decide
  have hmax : 60 * longest.toNat < 2 ^ 64 := by decide
  obtain ⟨hwait, -, hfits, -⟩ := waits_follow_fibonacci h hmax [.next, .next, .reset, .next]
  obtain ⟨-, -, -, hmono⟩ := waits_follow_fibonacci h hmax [.reset, .next]
  exact ⟨h, hmax, hwait.trans (by decide), hfits, hmono [.next, .next] (by decide)⟩

end MetalPool.Backoff
