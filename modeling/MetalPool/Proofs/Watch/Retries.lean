import MetalPool.Proofs.Watch.Backoff
import MetalPool.Watch.Retries
/-!
# The backoff of a record

`backoffAt` is the backoff that a failure of a record goes by: the one kept, or
a new one where there is none or the record last failed half an hour ago. What
is asked for other records, and the dropping of old backoffs, never show
(`backoffAt_next_of_ne`), as long as time goes forward.
-/

namespace MetalPool.Retries

/-- The backoff of a record that never failed. -/
def first : Backoff := .start 1 10

/-- The backoff that a failure of the record at `now` goes by. -/
def backoffAt (r : Retries) (key : String) (now : Instant) : Backoff :=
  (((r.fresh now).get? key).map (·.backoff)).getD first

/-- The last failure at `last` still counts at `now`. -/
def Recent (last now : Instant) : Prop := (now.since last).nanos < keepFor.nanos

instance (last now : Instant) : Decidable (Recent last now) := inferInstanceAs (Decidable (_ < _))

variable {r : Retries} {key k : String} {now t last : Instant}

/-- The wait after `n` failures before this one. -/
theorem wait_first (n : Nat) :
    (first.after n).next.1.toNat = 60 * min (n + 1).fib 10 := by
  rw [first, Backoff.wait_after (by decide) (by decide) n]
  rw [show (1 : UInt64).toNat = 1 from rfl, Nat.mul_one]
  rfl

theorem Recent.mono (h : Recent last t) (ht : now.nanos ≤ t.nanos) : Recent last now := by
  have hsince : (now.since last).nanos ≤ (t.since last).nanos := Int.toNat_le_toNat (by omega)
  exact Nat.lt_of_le_of_lt hsince h

/-! ## What is kept -/

theorem get?_fresh (r : Retries) (key : String) (now : Instant) :
    (r.fresh now).get? key = (r.entries.get? key).filter fun retry => Recent retry.last now :=
  SortedMap.get?_filter ..

theorem get?_fresh_next_of_ne (hne : k ≠ key) (ht : now.nanos ≤ t.nanos) :
    ((r.next key now).2.fresh t).get? k = (r.fresh t).get? k := by
  have hget : (r.next key now).2.entries.get? k = (r.fresh now).get? k := by
    unfold next
    simp [hne]
  rw [get?_fresh, hget, get?_fresh, get?_fresh]
  cases r.entries.get? k with
  | none => rfl
  | some retry =>
    by_cases h : Recent retry.last now
    · simp [Option.filter, h]
    · have hlater : ¬Recent retry.last t := fun hr => h (hr.mono ht)
      simp [Option.filter, h, hlater]

theorem get?_fresh_next : ((r.next key now).2.fresh t).get? key =
    if Recent now t then some ⟨(r.backoffAt key now).next.2, now⟩ else none := by
  rw [get?_fresh]
  unfold next
  rw [SortedMap.get?_insert, if_pos rfl]
  rw [Option.filter_some]
  simp only [decide_eq_true_eq]
  rfl

/-! ## The next backoff -/

theorem next_fst : (r.next key now).1 = .ofSeconds (r.backoffAt key now).next.1.toNat := rfl

theorem backoffAt_next_of_ne (hne : k ≠ key) (ht : now.nanos ≤ t.nanos) :
    (r.next key now).2.backoffAt k t = r.backoffAt k t := by
  unfold backoffAt
  rw [get?_fresh_next_of_ne hne ht]

theorem backoffAt_next : (r.next key now).2.backoffAt key t =
    if Recent now t then (r.backoffAt key now).next.2 else first := by
  rw [backoffAt, get?_fresh_next]
  split
  · rfl
  · rfl

/-! ## Starting over -/

/-- The record's backoff, if it has one, is as at its start. -/
def Rested (r : Retries) (key : String) : Prop :=
  ∀ retry, r.entries.get? key = some retry → retry.backoff.reset = retry.backoff

theorem get?_reset (r : Retries) (key k : String) :
    (r.reset key).entries.get? k =
      if k = key then
        (r.entries.get? key).map fun retry => { retry with backoff := retry.backoff.reset }
      else r.entries.get? k := by
  unfold reset
  cases hg : r.entries.get? key with
  | none =>
    by_cases hk : k = key
    · simp [hk, hg]
    · simp [hk]
  | some retry => simp

theorem get?_fresh_reset (r : Retries) (key k : String) (t : Instant) :
    ((r.reset key).fresh t).get? k =
      if k = key then
        ((r.fresh t).get? key).map fun retry => { retry with backoff := retry.backoff.reset }
      else (r.fresh t).get? k := by
  rw [get?_fresh, get?_reset, get?_fresh, get?_fresh]
  split
  · rw [Option.filter_map]
    rfl
  · rfl

theorem backoffAt_reset_of_ne (hne : k ≠ key) : (r.reset key).backoffAt k t = r.backoffAt k t := by
  unfold backoffAt
  rw [get?_fresh_reset, if_neg hne]

theorem backoffAt_reset : (r.reset key).backoffAt key t = (r.backoffAt key t).reset := by
  unfold backoffAt
  rw [get?_fresh_reset, if_pos rfl]
  cases (r.fresh t).get? key with
  | none => rfl
  | some retry => rfl

theorem rested_reset (r : Retries) (key : String) : (r.reset key).Rested key := by
  intro retry h
  rw [get?_reset, if_pos rfl, Option.map_eq_some_iff] at h
  obtain ⟨old, -, rfl⟩ := h
  rfl

theorem Rested.reset_of_ne (h : r.Rested k) (hne : k ≠ key) : (r.reset key).Rested k := by
  intro retry hg
  rw [get?_reset, if_neg hne] at hg
  exact h retry hg

theorem Rested.next_of_ne (h : r.Rested k) (hne : k ≠ key) : (r.next key now).2.Rested k := by
  intro retry hg
  unfold next fresh at hg
  simp only [SortedMap.get?_insert, if_neg hne, SortedMap.get?_filter, Option.filter_eq_some_iff] at hg
  exact h retry hg.1

/-- There is nothing to start over. -/
theorem Rested.reset_eq (h : r.Rested key) : r.reset key = r := by
  unfold reset
  cases hg : r.entries.get? key with
  | none => rfl
  | some retry =>
    dsimp only
    rw [h retry hg, SortedMap.insert_of_get? hg]

end MetalPool.Retries
