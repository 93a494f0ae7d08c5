import MetalPool.Proofs.Watch.Retries
/-!
# Backoffs after any calls

The wait after a failure is read off the calls made so far, without the backoffs
kept: it counts the failures of the record itself, back to where it was started
over or did not fail for half an hour (`waits_count_failures`). Calls for other
records and what they drop never show, and a record that fails again just when
its wait is over loses no failure.
-/

namespace MetalPool

/-- A failure of a record at a time, or a success. -/
inductive RetryCall where
  | next (key : String) (time : Instant)
  | reset (key : String)
deriving DecidableEq, Repr

namespace RetryCall

def key : RetryCall → String
  | next key _ => key
  | reset key => key

def time? : RetryCall → Option Instant
  | next _ time => some time
  | reset _ => none

/-- The time of the call, if it is a failure of the record. -/
def failure? (key : String) : RetryCall → Option Instant
  | next k time => if k = key then some time else none
  | reset _ => none

end RetryCall

namespace Retries

/-- The backoffs once the call was made. -/
def apply (r : Retries) : RetryCall → Retries
  | .next key time => (r.next key time).2
  | .reset key => r.reset key

/-- The backoffs after the calls, the last one listed first. -/
def after : List RetryCall → Retries
  | [] => {}
  | c :: earlier => (after earlier).apply c

/-- The times of the calls, the last one first. -/
def times (calls : List RetryCall) : List Instant := calls.filterMap RetryCall.time?

/-- Time does not go back from call to call. -/
def Ordered (calls : List RetryCall) : Prop :=
  (times calls).Pairwise fun later earlier => earlier.nanos ≤ later.nanos

instance (calls : List RetryCall) : Decidable (Ordered calls) :=
  inferInstanceAs (Decidable (List.Pairwise _ _))

/-- When the record failed, the last time first. -/
def failures (key : String) (calls : List RetryCall) : List Instant :=
  calls.filterMap (·.failure? key)

/-- When the record failed after it was last started over. -/
def sinceReset (key : String) (calls : List RetryCall) : List Instant :=
  failures key (calls.takeWhile (· ≠ .reset key))

/-- How many failures there were up to `now`, the last one first, back to half an hour without one. -/
def streak (now : Instant) : List Instant → Nat
  | [] => 0
  | time :: earlier => if Recent time now then streak time earlier + 1 else 0

/-- When the wait that the record was last given is over. -/
def dueAt? (key : String) : List RetryCall → Option Instant
  | [] => none
  | c :: earlier =>
    match c.failure? key with
    | some time => some ⟨time.nanos + ((after earlier).next key time).1.nanos⟩
    | none => dueAt? key earlier

/-- The record fails again just when each wait is over. -/
def Punctual (key : String) : List RetryCall → Prop
  | [] => True
  | c :: earlier =>
    (∀ time ∈ c.failure? key, ∀ due ∈ dueAt? key earlier, time = due) ∧ Punctual key earlier

instance decidablePunctual (key : String) : (calls : List RetryCall) → Decidable (Punctual key calls)
  | [] => isTrue trivial
  | _ :: earlier =>
    have := decidablePunctual key earlier
    inferInstanceAs (Decidable (_ ∧ _))

variable {r : Retries} {c : RetryCall} {calls earlier : List RetryCall} {key k : String}
  {t last : Instant}

/-! ## One call -/

/-- A call is for another record, or one of the two for this one. -/
theorem of_key (c : RetryCall) (key : String) :
    c.key ≠ key ∨ (∃ time, c = .next key time) ∨ c = .reset key := by
  by_cases hkey : c.key = key
  · subst hkey
    cases c with
    | next k time => exact .inr (.inl ⟨time, rfl⟩)
    | reset k => exact .inr (.inr rfl)
  · exact .inl hkey

theorem failure?_of_ne (hne : c.key ≠ key) : c.failure? key = none := by
  cases c with
  | next k time => exact if_neg hne
  | reset k => rfl

/-- A call for another record does not show in what is kept of this one. -/
theorem get?_fresh_apply_of_ne (hne : c.key ≠ key) (ht : ∀ time ∈ c.time?, time.nanos ≤ t.nanos) :
    ((r.apply c).fresh t).get? key = (r.fresh t).get? key := by
  cases c with
  | next k time => exact get?_fresh_next_of_ne hne.symm (ht time rfl)
  | reset k => exact (get?_fresh_reset ..).trans (if_neg hne.symm)

theorem backoffAt_apply_of_ne (hne : c.key ≠ key) (ht : ∀ time ∈ c.time?, time.nanos ≤ t.nanos) :
    (r.apply c).backoffAt key t = r.backoffAt key t := by
  unfold backoffAt
  rw [get?_fresh_apply_of_ne hne ht]

/-! ## Lists of calls -/

theorem ordered_next : Ordered (.next key t :: calls) ↔
    (∀ time ∈ times calls, time.nanos ≤ t.nanos) ∧ Ordered calls := by
  unfold Ordered times
  rw [List.filterMap_cons_some (show (RetryCall.next key t).time? = some t from rfl),
    List.pairwise_cons]

theorem Ordered.tail (h : Ordered (c :: earlier)) : Ordered earlier :=
  List.Pairwise.sublist ((List.sublist_cons_self c earlier).filterMap _) h

theorem Ordered.filter (h : Ordered calls) (p : RetryCall → Bool) : Ordered (calls.filter p) :=
  List.Pairwise.sublist (List.filter_sublist.filterMap _) h

theorem forall_times_cons : (∀ time ∈ times (c :: earlier), time.nanos ≤ t.nanos) ↔
    (∀ time ∈ c.time?, time.nanos ≤ t.nanos) ∧ ∀ time ∈ times earlier, time.nanos ≤ t.nanos := by
  unfold times
  cases c with
  | next k time => simp [RetryCall.time?]
  | reset k => simp [RetryCall.time?]

@[simp] theorem failures_next (key : String) (t : Instant) (calls : List RetryCall) :
    failures key (.next key t :: calls) = t :: failures key calls :=
  List.filterMap_cons_some (if_pos rfl)

theorem failures_of_ne (hne : c.key ≠ key) : failures key (c :: earlier) = failures key earlier :=
  List.filterMap_cons_none (failure?_of_ne hne)

@[simp] theorem sinceReset_next (key : String) (t : Instant) (calls : List RetryCall) :
    sinceReset key (.next key t :: calls) = t :: sinceReset key calls := by
  unfold sinceReset
  rw [List.takeWhile_cons_of_pos (by simp), failures_next]

@[simp] theorem sinceReset_reset (key : String) (calls : List RetryCall) :
    sinceReset key (.reset key :: calls) = [] := by
  unfold sinceReset
  rw [List.takeWhile_cons_of_neg (by simp)]
  rfl

theorem sinceReset_of_ne (hne : c.key ≠ key) :
    sinceReset key (c :: earlier) = sinceReset key earlier := by
  have hgoes : c ≠ .reset key := by
    rintro rfl
    exact hne rfl
  unfold sinceReset
  rw [List.takeWhile_cons_of_pos (by simpa using hgoes), failures_of_ne hne]

theorem sinceReset_filter (key : String) (calls : List RetryCall) :
    sinceReset key (calls.filter (·.key = key)) = sinceReset key calls := by
  induction calls with
  | nil => rfl
  | cons c earlier ih =>
    rcases of_key c key with hkey | ⟨time, rfl⟩ | rfl
    · rw [List.filter_cons_of_neg (by simpa using hkey), sinceReset_of_ne hkey]
      exact ih
    · rw [List.filter_cons_of_pos (by simp [RetryCall.key]), sinceReset_next, sinceReset_next, ih]
    · rw [List.filter_cons_of_pos (by simp [RetryCall.key]), sinceReset_reset, sinceReset_reset]

/-! ## What is kept -/

/-- The backoff of a record counts its failures, back to where they start over. -/
theorem backoffAt_after (h : Ordered calls) (ht : ∀ time ∈ times calls, time.nanos ≤ t.nanos) :
    (after calls).backoffAt key t = first.after (streak t (sinceReset key calls)) := by
  induction calls generalizing t with
  | nil => rfl
  | cons c earlier ih =>
    obtain ⟨htime, hearlier⟩ := forall_times_cons.1 ht
    rcases of_key c key with hkey | ⟨time, rfl⟩ | rfl
    · rw [sinceReset_of_ne hkey, ← ih h.tail hearlier]
      exact backoffAt_apply_of_ne hkey htime
    · -- The failure at `time` went by the backoff as it was at `time`, so the induction is for every time.
      rw [sinceReset_next, streak]
      refine backoffAt_next.trans ?_
      split
      · rw [ih h.tail (ordered_next.1 h).1]
        rfl
      · rfl
    · rw [sinceReset_reset]
      refine backoffAt_reset.trans ?_
      rw [ih h.tail hearlier]
      exact Backoff.reset_after 1 10 _

theorem recent_self (t : Instant) : Recent t t := by
  unfold Recent Instant.since
  rw [Int.sub_self]
  decide

/-- A backoff is kept while the last failure is less than half an hour ago. -/
theorem isSome_fresh_after (h : Ordered calls) (ht : ∀ time ∈ times calls, time.nanos ≤ t.nanos) :
    (((after calls).fresh t).get? key).isSome ↔
      ∃ last, (failures key calls).head? = some last ∧ Recent last t := by
  induction calls with
  | nil => exact iff_of_false nofun nofun
  | cons c earlier ih =>
    obtain ⟨htime, hearlier⟩ := forall_times_cons.1 ht
    rcases of_key c key with hkey | ⟨time, rfl⟩ | rfl
    · rw [failures_of_ne hkey, after, get?_fresh_apply_of_ne hkey htime]
      exact ih h.tail hearlier
    · rw [failures_next, List.head?_cons, after, apply, get?_fresh_next]
      by_cases hrecent : Recent time t
      · simp [hrecent]
      · simp [hrecent]
    · rw [after, apply, get?_fresh_reset, if_pos rfl, Option.isSome_map]
      exact ih h.tail hearlier

/-- What is stored after a failure is what that failure kept. -/
theorem isSome_after_next (h : Ordered (.next key t :: calls)) :
    ((after (.next key t :: calls)).entries.get? k).isSome ↔
      ∃ last, (failures k (.next key t :: calls)).head? = some last ∧ Recent last t := by
  obtain ⟨htimes, hcalls⟩ := ordered_next.1 h
  have hget : (after (.next key t :: calls)).entries.get? k =
      if k = key then some ⟨((after calls).backoffAt key t).next.2, t⟩
      else ((after calls).fresh t).get? k := by
    rw [after, apply, next, SortedMap.get?_insert]
    rfl
  rw [hget]
  by_cases hk : k = key
  · subst hk
    simp [failures_next, recent_self]
  · rw [if_neg hk, failures_of_ne (Ne.symm hk)]
    exact isSome_fresh_after hcalls htimes

/-! ## Waits -/

theorem wait_eq (h : Ordered (.next key t :: calls)) :
    ((after calls).next key t).1 =
      .ofSeconds (60 * min (streak t (sinceReset key calls) + 1).fib 10) := by
  obtain ⟨htimes, hcalls⟩ := ordered_next.1 h
  rw [next_fst, backoffAt_after hcalls htimes, wait_first]

theorem dueAt?_of_ne (hne : c.key ≠ key) : dueAt? key (c :: earlier) = dueAt? key earlier := by
  rw [dueAt?, failure?_of_ne hne]

@[simp] theorem dueAt?_next (key : String) (t : Instant) (calls : List RetryCall) :
    dueAt? key (.next key t :: calls) = some ⟨t.nanos + ((after calls).next key t).1.nanos⟩ := by
  rw [dueAt?, show (RetryCall.next key t).failure? key = some t from if_pos rfl]

/-- No wait is longer than ten minutes. -/
theorem due_soon (h : Ordered calls) (hlast : (failures key calls).head? = some last) :
    ∃ due, dueAt? key calls = some due ∧ due.nanos ≤ last.nanos + 600 * 1000000000 := by
  induction calls with
  | nil => cases hlast
  | cons c earlier ih =>
    rcases of_key c key with hkey | ⟨time, rfl⟩ | rfl
    · rw [failures_of_ne hkey] at hlast
      rw [dueAt?_of_ne hkey]
      exact ih h.tail hlast
    · rw [failures_next] at hlast
      cases hlast
      refine ⟨_, dueAt?_next .., ?_⟩
      rw [wait_eq h]
      unfold Span.ofSeconds
      dsimp only
      omega
    · exact ih h.tail hlast

/-- A record that fails just when its wait is over failed less than half an hour before. -/
theorem Punctual.recent (hp : Punctual key (.next key t :: calls)) (h : Ordered calls)
    (hlast : (failures key calls).head? = some last) : Recent last t := by
  obtain ⟨due, hdue, hsoon⟩ := due_soon h hlast
  have ht : t = due := hp.1 t (if_pos rfl) due hdue
  have hkeep : keepFor.nanos = 1800 * 1000000000 := rfl
  unfold Recent Instant.since
  rw [hkeep, ht]
  dsimp only
  omega

/-- Such a record loses no failure. -/
theorem Punctual.streak_eq (hp : Punctual key (.next key t :: calls))
    (h : Ordered (.next key t :: calls)) :
    streak t (sinceReset key calls) = (sinceReset key calls).length := by
  induction calls generalizing t with
  | nil => rfl
  | cons c earlier ih =>
    obtain ⟨htimes, hcalls⟩ := ordered_next.1 h
    rcases of_key c key with hkey | ⟨time, rfl⟩ | rfl
    · -- Without the call for another record, the failure at `t` is still the next of this one.
      rw [sinceReset_of_ne hkey]
      refine ih ⟨?_, hp.2.2⟩ (ordered_next.2 ⟨(forall_times_cons.1 htimes).2, hcalls.tail⟩)
      rw [← dueAt?_of_ne hkey]
      exact hp.1
    · have hrecent : Recent time t := hp.recent hcalls (by rw [failures_next]; rfl)
      rw [sinceReset_next, streak, if_pos hrecent, List.length_cons, ih hp.2 hcalls]
    · rw [sinceReset_reset]
      rfl

/-- The wait after a failure at `t` is 60 s times a Fibonacci number, ten minutes at most, that counts the
record's failures with this one, back to the last success or the last half hour without a failure. Calls for
other records do not show. The backoffs stored then are those of the records that failed last less than
half an hour ago. A record that failed again just when each of its waits was over has every failure since
its last success counted, and its backoff outlasts what the failure at `t` drops. -/
theorem waits_count_failures (h : Ordered (.next key t :: calls)) :
    ((after calls).next key t).1 =
      .ofSeconds (60 * min (streak t (sinceReset key calls) + 1).fib 10) ∧
    ((after (calls.filter (·.key = key))).next key t).1 = ((after calls).next key t).1 ∧
    (∀ k, ((after (.next key t :: calls)).entries.get? k).isSome ↔
      ∃ last, (failures k (.next key t :: calls)).head? = some last ∧ Recent last t) ∧
    (Punctual key (.next key t :: calls) →
      streak t (sinceReset key calls) = (sinceReset key calls).length ∧
      (failures key calls ≠ [] → (((after calls).fresh t).get? key).isSome)) := by
  obtain ⟨htimes, hcalls⟩ := ordered_next.1 h
  refine ⟨wait_eq h, ?_, fun k => isSome_after_next h, ?_⟩
  · have htheirs : Ordered (.next key t :: calls.filter (·.key = key)) := by
      rw [← List.filter_cons_of_pos (by simp [RetryCall.key])]
      exact h.filter _
    rw [wait_eq h, wait_eq htheirs, sinceReset_filter]
  · intro hp
    refine ⟨hp.streak_eq h, fun hfailed => ?_⟩
    obtain ⟨last, earlier, hlast⟩ := List.exists_cons_of_ne_nil hfailed
    have hhead : (failures key calls).head? = some last := by rw [hlast, List.head?_cons]
    exact (isSome_fresh_after hcalls htimes).2 ⟨last, hhead, hp.recent hcalls hhead⟩

/-- m1 succeeds once and then fails three times, each time when its wait is over. Its fourth failure drops
the backoff of m3 and keeps that of m2. -/
theorem waits_count_failures_punctual :
    let calls : List RetryCall := [.next "m1" (.ofSeconds 1680), .next "m1" (.ofSeconds 1620),
      .next "m2" (.ofSeconds 1590), .next "m1" (.ofSeconds 1560), .reset "m1",
      .next "m1" (.ofSeconds 1500), .next "m3" (.ofSeconds 0)]
    let next : RetryCall := .next "m1" (.ofSeconds 1800)
    Ordered (next :: calls) ∧ Punctual "m1" (next :: calls) ∧
    ((after calls).next "m1" (.ofSeconds 1800)).1 = .ofSeconds (60 * 3) ∧
    ((after (next :: calls)).entries.get? "m2").isSome ∧
    ¬((after (next :: calls)).entries.get? "m3").isSome ∧
    (((after calls).fresh (.ofSeconds 1800)).get? "m1").isSome := by
  intro calls next
  have h : Ordered (next :: calls) := by decide
  have hp : Punctual "m1" (next :: calls) := by decide +kernel
  obtain ⟨hwait, -, hstored, hpunctual⟩ := waits_count_failures h
  obtain ⟨hstreak, hkept⟩ := hpunctual hp
  have hcount : (sinceReset "m1" calls).length = 3 := by decide
  refine ⟨h, hp, ?_, ?_, ?_, hkept (by decide)⟩
  · rw [hwait, hstreak, hcount]
    decide
  · exact (hstored "m2").2 ⟨.ofSeconds 1590, by decide, by decide⟩
  · intro hm3
    obtain ⟨last, hlast, hrecent⟩ := (hstored "m3").1 hm3
    have hfirst : (failures "m3" (next :: calls)).head? = some (.ofSeconds 0) := by decide
    cases hfirst.symm.trans hlast
    exact absurd hrecent (by decide)

end Retries

end MetalPool
