import MetalPool.Watch.Gate
/-!
# What holds a record back

The gate holds a record back by what the last reconciliation of that record
asked for. What is noted for other records, and the dropping of what is due,
never show (`remaining_record_of_ne`), as long as time goes forward.
-/

namespace MetalPool

/-- How long the entry makes a record at `generation` wait. -/
def GateEntry.wait? (e : GateEntry) (generation : Option Int64) (now : Instant) : Option Span :=
  if e.generation = generation ∧ now.nanos < e.due.nanos then some (e.due.since now) else none

namespace Gate

variable {g : Gate} {key k : String} {generation generation' : Option Int64} {requeue : Option Span}
  {now t : Instant}

theorem remaining_eq (g : Gate) (key : String) (generation : Option Int64) (now : Instant) :
    g.remaining key generation now = (g.entries.get? key).bind (·.wait? generation now) := by
  unfold remaining
  cases g.entries.get? key <;> rfl

/-- What is dropped for being due would hold nothing back. -/
theorem wait_waiting (g : Gate) (key : String) (generation : Option Int64)
    (ht : now.nanos ≤ t.nanos) :
    ((g.waiting now).get? key).bind (·.wait? generation t) = g.remaining key generation t := by
  rw [remaining_eq, waiting, SortedMap.get?_filter]
  cases g.entries.get? key with
  | none => rfl
  | some e =>
    by_cases hdue : now.nanos < e.due.nanos
    · simp [Option.filter, hdue]
    · have hover : ¬t.nanos < e.due.nanos := by omega
      simp [Option.filter, hdue, GateEntry.wait?, hover]

/-- A requeue is noted, unless it is too far away. -/
theorem record_some (g : Gate) (key : String) (generation : Option Int64) (after : Span)
    (now : Instant) :
    g.record key generation (some after) now =
        (.ok (), { entries := (g.waiting now).insert key ⟨generation, ⟨now.nanos + after.nanos⟩⟩ }) ∨
      g.record key generation (some after) now = (.error .instant, { entries := g.waiting now }) := by
  unfold record Instant.add?
  by_cases h : (now.nanos + after.nanos) / 1000000000 ≤ Instant.maxSeconds
  · exact .inl (by simp [h])
  · exact .inr (by simp [h])

theorem remaining_record_of_ne (hne : k ≠ key) (ht : now.nanos ≤ t.nanos) :
    (g.record key generation requeue now).2.remaining k generation' t =
      g.remaining k generation' t := by
  rw [← wait_waiting g k generation' ht, remaining_eq]
  cases requeue with
  | none => simp [record, hne]
  | some after =>
    rcases g.record_some key generation after now with he | he
    · rw [he, SortedMap.get?_insert, if_neg hne]
    · rw [he]

theorem remaining_record_none (g : Gate) (key : String) (generation generation' : Option Int64)
    (now t : Instant) : (g.record key generation none now).2.remaining key generation' t = none := by
  rw [remaining_eq]
  unfold record
  simp

theorem remaining_record_some {after : Span}
    (hok : (g.record key generation (some after) now).1 = .ok ()) :
    (g.record key generation (some after) now).2.remaining key generation' t =
      (GateEntry.mk generation ⟨now.nanos + after.nanos⟩).wait? generation' t := by
  rcases g.record_some key generation after now with he | he
  · rw [he, remaining_eq, SortedMap.get?_insert, if_pos rfl]
    rfl
  · rw [he] at hok
    cases hok

/-- A requeue too far away to be noted leaves every record held back as it was. -/
theorem remaining_record_error {after : Span} {e : TimeOverflow}
    (herror : (g.record key generation (some after) now).1 = .error e) (ht : now.nanos ≤ t.nanos) :
    (g.record key generation (some after) now).2.remaining k generation' t =
      g.remaining k generation' t := by
  rcases g.record_some key generation after now with he | he
  · rw [he] at herror
    cases herror
  · rw [he, ← wait_waiting g k generation' ht, remaining_eq]

end Gate

end MetalPool
