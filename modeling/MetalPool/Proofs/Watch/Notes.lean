import MetalPool.Proofs.Watch.Gate
/-!
# The gate after any notes

What holds a record back is read off the notes made so far, without the gate: it
is the last note of the record itself (`gate_follows_last_note`). Notes of other
records and what they drop never show.

A note whose requeue no clock can reach is refused. It drops what is due and
leaves the rest, so the record goes on waiting for the note before it.
-/

namespace MetalPool

/-- What a reconciliation that ended at `time` asks the gate to note. -/
structure GateNote where
  key : String
  generation : Option Int64
  requeue : Option Span
  time : Instant
deriving DecidableEq, Repr

namespace GateNote

/-- The time of the requeue can be told, if one is asked for. -/
def Fits (n : GateNote) : Prop :=
  ∀ delay ∈ n.requeue, (n.time.nanos + delay.nanos) / 1000000000 ≤ Instant.maxSeconds

instance (n : GateNote) : Decidable n.Fits := by
  unfold Fits
  infer_instance

/-- What the note has the record wait for. -/
def entry? (n : GateNote) : Option GateEntry :=
  n.requeue.map fun delay => ⟨n.generation, ⟨n.time.nanos + delay.nanos⟩⟩

variable {n : GateNote} {generation : Option Int64} {t : Instant} {wait : Span}

theorem wait?_eq_some_iff :
    n.entry?.bind (·.wait? generation t) = some wait ↔
      ∃ delay, n.generation = generation ∧ n.requeue = some delay ∧
        t.nanos < n.time.nanos + delay.nanos ∧
        wait = ⟨(n.time.nanos + delay.nanos - t.nanos).toNat⟩ := by
  unfold entry? GateEntry.wait?
  constructor
  · intro h
    obtain ⟨e, he, hwait⟩ := Option.bind_eq_some_iff.1 h
    obtain ⟨delay, hdelay, rfl⟩ := Option.map_eq_some_iff.1 he
    split at hwait
    · rename_i hheld
      cases hwait
      exact ⟨delay, hheld.1, hdelay, hheld.2, rfl⟩
    · cases hwait
  · rintro ⟨delay, hgeneration, hdelay, hearly, rfl⟩
    rw [hdelay, Option.map_some, Option.bind_some, if_pos ⟨hgeneration, hearly⟩]
    rfl

end GateNote

namespace Gate

/-- The gate once the note was asked for. -/
def apply (g : Gate) (n : GateNote) : Gate := (g.record n.key n.generation n.requeue n.time).2

/-- The gate after the notes, the last one listed first. -/
def after : List GateNote → Gate
  | [] => {}
  | n :: earlier => (after earlier).apply n

/-- The last note of the record that was not refused. -/
def latest? (key : String) (notes : List GateNote) : Option GateNote :=
  notes.find? fun n => n.key = key ∧ n.Fits

variable {g : Gate} {n : GateNote} {notes : List GateNote} {key k : String}
  {generation : Option Int64} {t : Instant}

theorem record_answer (g : Gate) (n : GateNote) :
    (g.record n.key n.generation n.requeue n.time).1 =
      if n.Fits then .ok () else .error .instant := by
  obtain ⟨key, generation, requeue, time⟩ := n
  cases requeue with
  | none => simp [record, GateNote.Fits]
  | some delay =>
    unfold record Instant.add? GateNote.Fits
    by_cases h : (time.nanos + delay.nanos) / 1000000000 ≤ Instant.maxSeconds
    · simp [h]
    · simp [h]

/-- What is left after a note is still to come, or was just noted. -/
theorem due_of_apply {e : GateEntry} (h : (g.apply n).entries.get? k = some e) :
    n.time.nanos < e.due.nanos ∨ k = n.key := by
  by_cases hk : k = n.key
  · exact .inr hk
  · -- Before anything is noted, what is due was dropped.
    have hkept : (g.waiting n.time).get? k = some e := by
      obtain ⟨key, generation, requeue, time⟩ := n
      unfold apply at h
      cases requeue with
      | none => simpa [record, hk] using h
      | some delay =>
        rcases g.record_some key generation delay time with he | he
        · rw [he, SortedMap.get?_insert, if_neg hk] at h
          exact h
        · rw [he] at h
          exact h
    rw [waiting, SortedMap.get?_filter, Option.filter_eq_some_iff] at hkept
    exact .inl (of_decide_eq_true hkept.2)

/-! ## One note -/

theorem remaining_apply_of_ne (hne : k ≠ n.key) (ht : n.time.nanos ≤ t.nanos) :
    (g.apply n).remaining k generation t = g.remaining k generation t :=
  remaining_record_of_ne hne ht

theorem remaining_apply_of_fits (h : n.Fits) :
    (g.apply n).remaining n.key generation t = n.entry?.bind (·.wait? generation t) := by
  have hok := g.record_answer n
  rw [if_pos h] at hok
  obtain ⟨key, generation, requeue, time⟩ := n
  cases requeue with
  | none => exact g.remaining_record_none ..
  | some delay => exact remaining_record_some hok

theorem remaining_apply_of_refused (h : ¬n.Fits) (ht : n.time.nanos ≤ t.nanos) :
    (g.apply n).remaining k generation t = g.remaining k generation t := by
  have herror := g.record_answer n
  rw [if_neg h] at herror
  obtain ⟨key, generation, requeue, time⟩ := n
  cases requeue with
  | none => exact absurd nofun h
  | some delay => exact remaining_record_error herror ht

/-! ## All notes -/

/-- The record waits for what its last note asked for. -/
theorem remaining_after (ht : ∀ n ∈ notes, n.time.nanos ≤ t.nanos) :
    (after notes).remaining key generation t =
      (latest? key notes).bind fun n => n.entry?.bind (·.wait? generation t) := by
  induction notes with
  | nil => rfl
  | cons n earlier ih =>
    obtain ⟨hn, hearlier⟩ := List.forall_mem_cons.1 ht
    rw [after, latest?, List.find?_cons]
    by_cases hkey : n.key = key
    · by_cases hfits : n.Fits
      · simp only [hkey, hfits, and_self, decide_true, Option.bind_some]
        rw [← hkey]
        exact remaining_apply_of_fits hfits
      · -- A refused note still drops what is due, which shows at no later time.
        simp only [hfits, and_false, decide_false]
        rw [remaining_apply_of_refused hfits hn]
        exact ih hearlier
    · simp only [hkey, false_and, decide_false]
      rw [remaining_apply_of_ne (Ne.symm hkey) hn]
      exact ih hearlier

theorem latest?_filter (key : String) (notes : List GateNote) :
    latest? key (notes.filter (·.key = key)) = latest? key notes := by
  unfold latest?
  rw [List.find?_filter]
  congr 1
  funext n
  by_cases hkey : n.key = key
  · simp [hkey]
  · simp [hkey]

theorem latest?_eq_find? (h : ∀ n ∈ notes.find? (·.key = key), n.Fits) :
    latest? key notes = notes.find? (·.key = key) := by
  unfold latest?
  induction notes with
  | nil => rfl
  | cons n earlier ih =>
    rw [List.find?_cons] at h
    rw [List.find?_cons, List.find?_cons]
    by_cases hkey : n.key = key
    · simp only [hkey, decide_true] at h ⊢
      have hfits : n.Fits := h n rfl
      simp [hfits]
    · simp only [hkey, false_and, decide_false] at h ⊢
      exact ih h

/-- A record is held back exactly while its last note that was not refused has it wait at the same
generation, for the rest of that wait; notes of other records do not show. A note is refused only if its
requeue is too far away to be told, and then the note before it counts. What is stored after a note at
some time is due later, except for the record just noted. -/
theorem gate_follows_last_note (ht : ∀ n ∈ notes, n.time.nanos ≤ t.nanos) :
    (∀ wait, (after notes).remaining key generation t = some wait ↔
      ∃ n delay, latest? key notes = some n ∧ n.generation = generation ∧ n.requeue = some delay ∧
        t.nanos < n.time.nanos + delay.nanos ∧
        wait = ⟨(n.time.nanos + delay.nanos - t.nanos).toNat⟩) ∧
    (after notes).remaining key generation t =
      (after (notes.filter (·.key = key))).remaining key generation t ∧
    (∀ (g : Gate) (n : GateNote), (g.record n.key n.generation n.requeue n.time).1 =
      if n.Fits then .ok () else .error .instant) ∧
    ((∀ n ∈ notes.find? (·.key = key), n.Fits) →
      latest? key notes = notes.find? (·.key = key)) ∧
    ∀ (g : Gate) (n : GateNote) (k : String) (e : GateEntry),
      (g.apply n).entries.get? k = some e → n.time.nanos < e.due.nanos ∨ k = n.key := by
  refine ⟨fun wait => ?_, ?_, record_answer, latest?_eq_find?, fun _ _ _ _ => due_of_apply⟩
  · rw [remaining_after ht, Option.bind_eq_some_iff]
    simp only [GateNote.wait?_eq_some_iff]
    constructor
    · rintro ⟨n, hlatest, delay, h⟩
      exact ⟨n, delay, hlatest, h⟩
    · rintro ⟨n, delay, hlatest, h⟩
      exact ⟨n, hlatest, delay, h⟩
  · have htheirs : ∀ n ∈ notes.filter (·.key = key), n.time.nanos ≤ t.nanos := fun n hn =>
      ht n (List.mem_filter.1 hn).1
    rw [remaining_after ht, remaining_after htheirs, latest?_filter]

/-- The wait of m1 goes on past a note for m2, past its being dropped and past a note of m1's own that is
refused. -/
theorem gate_follows_last_note_refused :
    let notes : List GateNote := [⟨"m2", some 1, none, .ofSeconds 40⟩,
      ⟨"m1", some 2, some (.ofSeconds Span.maxSeconds), .ofSeconds 20⟩,
      ⟨"m2", some 1, some (.ofSeconds 5), .ofSeconds 10⟩,
      ⟨"m1", none, some (.ofSeconds 600), .ofSeconds 0⟩]
    (∀ n ∈ notes, n.time.nanos ≤ (Instant.ofSeconds 50).nanos) ∧
    (after notes).remaining "m1" none (.ofSeconds 50) = some (.ofSeconds 550) ∧
    (after notes).remaining "m1" (some 2) (.ofSeconds 50) = none := by
  intro notes
  have ht : ∀ n ∈ notes, n.time.nanos ≤ (Instant.ofSeconds 50).nanos := by decide
  have hlatest : latest? "m1" notes = some ⟨"m1", none, some (.ofSeconds 600), .ofSeconds 0⟩ := by
    decide
  refine ⟨ht, ?_, ?_⟩
  · obtain ⟨hwait, -⟩ := @gate_follows_last_note notes "m1" none (.ofSeconds 50) ht
    exact (hwait _).2 ⟨_, _, hlatest, rfl, rfl, by decide, by decide⟩
  · obtain ⟨hwait, -⟩ := @gate_follows_last_note notes "m1" (some 2) (.ofSeconds 50) ht
    rw [Option.eq_none_iff_forall_ne_some]
    intro wait h
    obtain ⟨n, delay, hn, hgeneration, -⟩ := (hwait wait).1 h
    cases hlatest.symm.trans hn
    cases hgeneration

/-- The last note of a record does not always tell what it waits for: at 10 s m1 is to wait at generation
2 for longer than can be told, and at 20 s it waits at generation 1 still and not at 2. -/
theorem last_note_refused :
    ¬∀ (notes : List GateNote) (key : String) (generation : Option Int64) (t : Instant),
      notes.Pairwise (fun later earlier => earlier.time.nanos ≤ later.time.nanos) →
      (∀ n ∈ notes, n.time.nanos ≤ t.nanos) →
      ∀ wait, (after notes).remaining key generation t = some wait ↔
        ∃ n delay, notes.find? (·.key = key) = some n ∧ n.generation = generation ∧
          n.requeue = some delay ∧ t.nanos < n.time.nanos + delay.nanos ∧
          wait = ⟨(n.time.nanos + delay.nanos - t.nanos).toNat⟩ := by
  intro h
  let last : GateNote := ⟨"m1", some 2, some (.ofSeconds Span.maxSeconds), .ofSeconds 10⟩
  have hwait := h [last, ⟨"m1", some 1, some (.ofSeconds 60), .ofSeconds 0⟩] "m1" (some 2)
    (.ofSeconds 20) (by decide) (by decide) (.ofSeconds (Span.maxSeconds - 10))
  have hnone : (after [last, ⟨"m1", some 1, some (.ofSeconds 60), .ofSeconds 0⟩]).remaining "m1"
      (some 2) (.ofSeconds 20) = none := by decide
  have hsome := hwait.2 ⟨last, _, rfl, rfl, rfl, by decide, by decide⟩
  rw [hnone] at hsome
  cases hsome

end Gate

end MetalPool
