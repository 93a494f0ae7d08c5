import MetalPool.Proofs.Watch.Schedule
/-!
# Delays after failures

A watch is explained by the turns that are over (`Follows`): how long the gate
holds a record back follows from its last reconciliation, and its backoff from
its failures in a row. A report that the gate puts off starts the backoff over,
but there is a wait only after a reconciliation that succeeded, which has started
it over already. So such a report changes nothing, and the delay after a failed
reconciliation counts failed reconciliations (`delays_count_failures`).
-/

namespace MetalPool

/-- What the gate notes of a reconciliation that ended at `time`. -/
def entryOf (generation : Option Int64) (time : Instant) : Reconciled → Option GateEntry
  | .ok (some delay) => some ⟨generation, ⟨time.nanos + delay.nanos⟩⟩
  | _ => none

namespace Taken

/-- The record was reconciled, and that failed. -/
def failed (t : Taken) : Bool :=
  match t.turn.result with
  | some (.error _) => true
  | _ => false

def hold? (t : Taken) : Option GateEntry := t.turn.result.bind (entryOf t.generation t.noted)

/-- Of the turns, those in which the record was reconciled. -/
def reconciling (name : String) (l : List Taken) : List Taken :=
  l.filter fun t => t.name = name ∧ t.turn.result.isSome

/-- Failures in a row up to `now`, of reconciliations listed with the last one first: back to one that
succeeded, or to half an hour without a failure. -/
def streak (now : Instant) : List Taken → Nat
  | [] => 0
  | t :: rest => if t.failed ∧ Retries.Recent t.ended now then streak t.ended rest + 1 else 0

theorem streak_of_ok {t : Taken} (h : t.failed = false) (now : Instant) (rest : List Taken) :
    streak now (t :: rest) = 0 := by
  rw [streak, if_neg fun hf => Bool.false_ne_true (h.symm.trans hf.1)]

theorem streak_of_failed {t : Taken} (h : t.failed = true) (now : Instant) (rest : List Taken) :
    streak now (t :: rest) = if Retries.Recent t.ended now then streak t.ended rest + 1 else 0 := by
  rw [streak]
  by_cases hrecent : Retries.Recent t.ended now
  · rw [if_pos ⟨h, hrecent⟩, if_pos hrecent]
  · rw [if_neg fun hf => hrecent hf.2, if_neg hrecent]

theorem requeued_of_hold? {t : Taken} {e : GateEntry} (h : t.hold? = some e) :
    ∃ delay, t.turn.result = some (.ok (some delay)) ∧
      e = ⟨t.generation, ⟨t.noted.nanos + delay.nanos⟩⟩ := by
  unfold hold? at h
  obtain ⟨result, hresult, he⟩ := Option.bind_eq_some_iff.1 h
  match result with
  | .ok (some delay) =>
    cases he
    exact ⟨delay, hresult, rfl⟩
  | .ok none | .error _ => cases he

theorem reconciling_cons (name : String) (t : Taken) (l : List Taken) :
    reconciling name (t :: l) =
      if t.name = name ∧ t.turn.result.isSome then t :: reconciling name l else reconciling name l := by
  unfold reconciling
  simp [List.filter_cons]

end Taken

open Taken (reconciling streak)

namespace Watch

/-- The last reconciliation of the record whose turn is over. -/
def last? (w : Watch) (name : String) : Option Taken := (reconciling name w.taken).head?

/-- What the gate noted of the record's last reconciliation, however long ago. -/
def hold? (w : Watch) (name : String) : Option GateEntry :=
  match w.going.get? name with
  | some ⟨generation, _, .noted time result⟩ => entryOf generation time result
  | _ => (w.last? name).bind Taken.hold?

/-- What the gate and the backoffs hold of the record follows from its turns. -/
structure Follows (w : Watch) (name : String) : Prop where
  remaining_eq : ∀ g t, w.now.nanos ≤ t.nanos →
    w.watcher.gate.remaining name g t = (w.hold? name).bind (·.wait? g t)
  backoffAt_eq : ∀ t : Instant, w.now.nanos ≤ t.nanos →
    w.watcher.retries.backoffAt name t =
      Retries.first.after (streak t (reconciling name w.taken))
  rested : ∀ t, w.last? name = some t → t.failed = false → w.watcher.retries.Rested name

variable {w w' v : Watch} {a : Act} {m : Move} {moves rest : List Move} {name : String}
  {generation : Option Int64}

theorem follows_start (world : World) (resync : Span) (now : Instant) (name : String) :
    (start world resync now).Follows name where
  remaining_eq _ _ _ := rfl
  backoffAt_eq _ _ := rfl
  rested := by
    intro t h
    cases h

/-! ## Turns of other records -/

theorem Acts.reconciling_of_ne (h : w.Acts a w') (hne : a.subject ≠ some name) :
    reconciling name w'.taken = reconciling name w.taken := by
  cases h with
  | deferred | answered => rw [Taken.reconciling_cons, if_neg fun h => hne (congrArg some h.1)]
  | _ => rfl

/-- A turn of another record does not show in the backoff of this one. -/
theorem Acts.retries_of_ne (h : w.Acts a w') (hne : a.subject ≠ some name) :
    (∀ t : Instant, w.now.nanos ≤ t.nanos →
      w'.watcher.retries.backoffAt name t = w.watcher.retries.backoffAt name t) ∧
    (w.watcher.retries.Rested name → w'.watcher.retries.Rested name) := by
  cases h with
  | deferred =>
    have hn := ne_of_apply_ne some hne.symm
    exact ⟨fun _ _ => Retries.backoffAt_reset_of_ne hn, fun h => h.reset_of_ne hn⟩
  | @answered n _ _ _ result =>
    have hn := ne_of_apply_ne some hne.symm
    cases result with
    | ok requeue => exact ⟨fun _ _ => Retries.backoffAt_reset_of_ne hn, fun h => h.reset_of_ne hn⟩
    | error e => exact ⟨fun _ ht => Retries.backoffAt_next_of_ne hn ht, fun h => h.next_of_ne hn⟩
  | _ => exact ⟨fun _ _ => rfl, id⟩

/-! ## One move -/

/-- A wait tells that the last reconciliation asked for a requeue, and when. -/
theorem Follows.last_of_wait (h : w.Follows name) (hidle : w.going.get? name = none) {wait : Span}
    (hwait : w.watcher.gate.remaining name generation w.now = some wait) :
    ∃ t delay, w.last? name = some t ∧ t.turn.result = some (.ok (some delay)) ∧
      t.generation = generation ∧ w.now.nanos < t.noted.nanos + delay.nanos ∧
      wait = ⟨(t.noted.nanos + delay.nanos - w.now.nanos).toNat⟩ := by
  rw [h.remaining_eq generation w.now (Int.le_refl _)] at hwait
  obtain ⟨e, he, hwait⟩ := Option.bind_eq_some_iff.1 hwait
  unfold hold? at he
  rw [hidle] at he
  obtain ⟨t, hlast, hentry⟩ := Option.bind_eq_some_iff.1 he
  obtain ⟨delay, hresult, rfl⟩ := Taken.requeued_of_hold? hentry
  unfold GateEntry.wait? at hwait
  split at hwait
  · rename_i hheld
    cases hwait
    exact ⟨t, delay, hlast, hresult, hheld.1, hheld.2, rfl⟩
  · cases hwait

/-- A report that the gate puts off leaves the backoffs as they are. -/
theorem Follows.reset_eq (h : w.Follows name) (hidle : w.going.get? name = none) {wait : Span}
    (hwait : w.watcher.gate.remaining name generation w.now = some wait) :
    w.watcher.retries.reset name = w.watcher.retries := by
  obtain ⟨t, delay, hlast, hresult, -⟩ := h.last_of_wait hidle hwait
  refine (h.rested t hlast ?_).reset_eq
  unfold Taken.failed
  rw [hresult]

/-- A move that shows in nothing of the record's. -/
theorem Follows.same (h : w.Follows name) (hnow : w.now.nanos ≤ w'.now.nanos)
    (hgate : ∀ g t, w'.now.nanos ≤ t.nanos →
      w'.watcher.gate.remaining name g t = w.watcher.gate.remaining name g t)
    (hentry : w'.hold? name = w.hold? name)
    (htaken : reconciling name w'.taken = reconciling name w.taken)
    (hbackoff : ∀ t : Instant, w'.now.nanos ≤ t.nanos →
      w'.watcher.retries.backoffAt name t = w.watcher.retries.backoffAt name t)
    (hrested : w.watcher.retries.Rested name → w'.watcher.retries.Rested name) : w'.Follows name where
  remaining_eq g t ht := by
    rw [hgate g t ht, hentry]
    exact h.remaining_eq g t (Int.le_trans hnow ht)
  backoffAt_eq t ht := by
    rw [hbackoff t ht, htaken]
    exact h.backoffAt_eq t (Int.le_trans hnow ht)
  rested t ht hok := by
    unfold last? at ht
    rw [htaken] at ht
    exact hrested (h.rested t ht hok)

theorem Follows.later (h : w.Follows name) {time : Instant} (htime : w.now.nanos ≤ time.nanos) :
    Follows { w with now := time } name :=
  h.same htime (fun _ _ _ => rfl) rfl rfl (fun _ _ => rfl) id

theorem hold?_of (hgoing : w'.going.get? name = w.going.get? name)
    (htaken : reconciling name w'.taken = reconciling name w.taken) : w'.hold? name = w.hold? name := by
  unfold hold? last?
  rw [hgoing, htaken]

/-- Before it is noted what a turn asked for, the gate goes by the turns that are over. -/
theorem hold?_eq_last? (h : ∀ generation started time result,
    w.going.get? name ≠ some ⟨generation, started, .noted time result⟩) :
    w.hold? name = (w.last? name).bind Taken.hold? := by
  unfold hold?
  split
  · rename_i hgoing
    exact absurd hgoing (h _ _ _ _)
  · rfl

/-- A report that the gate puts off shows in nothing. -/
theorem Follows.deferred (h : w.Follows name) (hidle : w.going.get? name = none) {wait : Span}
    (hwait : w.watcher.gate.remaining name generation w.now = some wait) :
    Follows { w with
      watcher := (w.watcher.defer name wait).2
      taken := ⟨name, generation, w.now, w.now, w.now, (w.watcher.defer name wait).1⟩ :: w.taken }
      name := by
  have htaken : reconciling name
      (⟨name, generation, w.now, w.now, w.now, (w.watcher.defer name wait).1⟩ :: w.taken) =
        reconciling name w.taken := by
    rw [Taken.reconciling_cons, if_neg]
    rintro ⟨-, hresult⟩
    cases hresult
  have hreset : (w.watcher.defer name wait).2.retries = w.watcher.retries := h.reset_eq hidle hwait
  refine h.same (Int.le_refl _) (fun _ _ _ => rfl) (hold?_of rfl htaken) htaken ?_ ?_
  · intro t _
    dsimp only
    rw [hreset]
  · dsimp only
    rw [hreset]
    exact id

/-- From now on the gate goes by what is noted. -/
theorem Follows.noted (h : w.Follows name) {started : Instant} {result : Reconciled}
    (hnote : (w.watcher.note name generation w.now result).1 = .ok ()) :
    Follows { w with
      watcher := (w.watcher.note name generation w.now result).2
      going := w.going.insert name ⟨generation, started, .noted w.now result⟩ } name := by
  refine ⟨fun g t _ => ?_, h.backoffAt_eq, h.rested⟩
  have hentry : hold? { w with
      watcher := (w.watcher.note name generation w.now result).2
      going := w.going.insert name ⟨generation, started, .noted w.now result⟩ } name =
        entryOf generation w.now result := by
    simp [hold?]
  rw [hentry]
  match result with
  | .ok (some delay) => exact Gate.remaining_record_some hnote
  | .ok none | .error _ => exact w.watcher.gate.remaining_record_none name generation g w.now t

/-- The backoff counts the failures in a row with the one that the answer is to, if it is one. -/
theorem backoffAt_answer {watcher : Watcher} {last : Taken} {earlier : List Taken} {result : Reconciled}
    (hresult : last.turn.result = some result) {time : Instant}
    (h : ∀ t : Instant, last.ended.nanos ≤ t.nanos →
      watcher.retries.backoffAt name t = Retries.first.after (streak t earlier))
    (htime : last.ended.nanos ≤ time.nanos) :
    (watcher.answer name last.ended result).2.retries.backoffAt name time =
      Retries.first.after (streak time (last :: earlier)) := by
  cases result with
  | ok requeue =>
    have hok : last.failed = false := by
      unfold Taken.failed
      rw [hresult]
    rw [Taken.streak_of_ok hok]
    calc (watcher.retries.reset name).backoffAt name time
      _ = (watcher.retries.backoffAt name time).reset := Retries.backoffAt_reset
      _ = (Retries.first.after (streak time earlier)).reset := by rw [h time htime]
      _ = Retries.first := Backoff.reset_after 1 10 _
  | error e =>
    have hfailed : last.failed = true := by
      unfold Taken.failed
      rw [hresult]
    rw [Taken.streak_of_failed hfailed]
    calc (watcher.retries.next name last.ended).2.backoffAt name time
      _ = if Retries.Recent last.ended time then (watcher.retries.backoffAt name last.ended).next.2
          else Retries.first := Retries.backoffAt_next
      _ = Retries.first.after (if Retries.Recent last.ended time then
          streak last.ended earlier + 1 else 0) := by
        rw [h last.ended (Int.le_refl _)]
        split <;> rfl

theorem Follows.answered (h : w.Follows name) {started noted : Instant} {result : Reconciled}
    (hgoing : w.going.get? name = some ⟨generation, started, .noted noted result⟩) :
    Follows { w with
      watcher := (w.watcher.answer name w.now result).2
      going := w.going.erase name
      taken := ⟨name, generation, started, noted, w.now, (w.watcher.answer name w.now result).1⟩ ::
        w.taken } name := by
  let last : Taken :=
    ⟨name, generation, started, noted, w.now, (w.watcher.answer name w.now result).1⟩
  have hresult : last.turn.result = some result := by cases result <;> rfl
  have htaken : reconciling name (last :: w.taken) = last :: reconciling name w.taken := by
    rw [Taken.reconciling_cons, if_pos ⟨rfl, by rw [hresult]; rfl⟩]
  refine ⟨fun g t ht => ?_, fun t ht => ?_, fun t hlast hok => ?_⟩
  · rw [Watcher.answer_gate, h.remaining_eq g t ht]
    unfold hold? last?
    rw [hgoing, SortedMap.get?_erase, if_pos rfl, htaken, List.head?_cons, Option.bind_some,
      Taken.hold?, hresult, Option.bind_some]
  · rw [htaken]
    exact backoffAt_answer hresult h.backoffAt_eq ht
  · unfold last? at hlast
    rw [htaken] at hlast
    cases hlast
    cases result with
    | ok requeue => exact Retries.rested_reset w.watcher.retries name
    | error e => cases hok

theorem Follows.act (h : w.Follows name) (hacts : w.Acts a w') : w'.Follows name := by
  by_cases hsubject : a.subject = some name
  · cases hacts with
    | deferred hopen hidle hwait =>
      cases hsubject
      exact h.deferred hidle hwait
    | admitted hopen hidle hfree =>
      cases hsubject
      refine h.same (Int.le_refl _) (fun _ _ _ => rfl) ?_ rfl (fun _ _ => rfl) id
      rw [hold?_eq_last? (by simp), hold?_eq_last? (by simp [hidle])]
      rfl
    | reconciled date hgoing =>
      cases hsubject
      refine h.same (Int.le_refl _) (fun _ _ _ => rfl) ?_ rfl (fun _ _ => rfl) id
      rw [hold?_eq_last? (by simp), hold?_eq_last? (by simp [hgoing])]
      rfl
    | @overflowed _ _ _ result _ hgoing hnote =>
      cases hsubject
      refine h.same (Int.le_refl _) (fun g t ht => ?_) ?_ rfl (fun _ _ => rfl) id
      · match result with
        | .ok (some delay) => exact Gate.remaining_record_error hnote ht
        | .ok none | .error _ => cases hnote
      · rw [hold?_eq_last? (by simp), hold?_eq_last? (by simp [hgoing])]
        rfl
    | noted hgoing hnote =>
      cases hsubject
      exact h.noted hnote
    | answered hgoing =>
      cases hsubject
      exact h.answered hgoing
    | happened => cases hsubject
  · obtain ⟨hgoing, hgate⟩ := hacts.of_ne hsubject
    obtain ⟨hbackoff, hrested⟩ := hacts.retries_of_ne hsubject
    have htaken := hacts.reconciling_of_ne hsubject
    have hnow : w'.now.nanos = w.now.nanos := congrArg Instant.nanos hacts.now_eq
    exact h.same (Int.le_of_eq hnow.symm) (fun g t ht => hgate g t (hnow ▸ ht))
      (hold?_of hgoing htaken) htaken (fun t ht => hbackoff t (hnow ▸ ht)) hrested

theorem Follows.move (h : w.Follows name) (hmove : w.move? m = some w') : w'.Follows name := by
  obtain ⟨htime, hacts⟩ := move?_eq_some_iff.1 hmove
  exact (h.later htime).act hacts

/-! ## Runs -/

/-- The delay after a failed reconciliation counts the failures in a row before it and itself. -/
def DelayCounts (t : Taken) (earlier : List Taken) : Prop :=
  ∀ e, t.turn.result = some (.error e) →
    t.turn.delay = .ofSeconds (60 * min (streak t.ended (reconciling t.name earlier) + 1).fib 10)

theorem Acts.taken_eq (h : w.Acts a w') (hfollows : ∀ name, w.Follows name) :
    w'.taken = w.taken ∨ ∃ t, w'.taken = t :: w.taken ∧ DelayCounts t w.taken := by
  cases h with
  | deferred => exact .inr ⟨_, rfl, fun _ he => nomatch he⟩
  | @answered name _ _ _ result =>
    refine .inr ⟨_, rfl, fun e he => ?_⟩
    cases result with
    | ok requeue => cases he
    | error e =>
      have hwait := Retries.wait_first (streak w.now (reconciling name w.taken))
      rw [← (hfollows name).backoffAt_eq w.now (Int.le_refl _)] at hwait
      exact congrArg Span.ofSeconds hwait
  | _ => exact .inl rfl

/-- In every run from the start, the watch follows from its turns, and each delay counts failures. -/
theorem follows_of_run {world : World} {resync : Span} {now : Instant}
    (hrun : (start world resync now).run? moves = some w) :
    (∀ name, w.Follows name) ∧
      ∀ later t earlier, w.taken = later ++ t :: earlier → DelayCounts t earlier := by
  refine run?_inv (I := fun w => (∀ name, w.Follows name) ∧
      ∀ later t earlier, w.taken = later ++ t :: earlier → DelayCounts t earlier)
    (p := fun _ => True) ?_ (fun _ _ => trivial)
    ⟨follows_start world resync now, fun later t earlier h => by cases later <;> cases h⟩ hrun
  rintro w m w' ⟨hfollows, hdelays⟩ - hmove
  refine ⟨fun name => (hfollows name).move hmove, ?_⟩
  obtain ⟨htime, hacts⟩ := move?_eq_some_iff.1 hmove
  intro later t earlier htaken
  rcases hacts.taken_eq fun name => (hfollows name).later htime with hsame | ⟨last, hlast, hcounts⟩
  · exact hdelays later t earlier (hsame.symm.trans htaken)
  · rw [hlast] at htaken
    cases later with
    | nil =>
      cases htaken
      exact hcounts
    | cons _ later => exact hdelays later t earlier (List.cons.inj htaken).2

/-- What is over does not decide what a run does. -/
theorem Acts.replay (h : w.Acts a v) : ∃ newer, v.taken = newer ++ w.taken ∧
    ∀ l, Acts { w with taken := l } a { v with taken := newer ++ l } := by
  cases h with
  | deferred hopen hidle hwait => exact ⟨[_], rfl, fun _ => .deferred hopen hidle hwait⟩
  | admitted hopen hidle hfree => exact ⟨[], rfl, fun _ => .admitted hopen hidle hfree⟩
  | reconciled date hgoing => exact ⟨[], rfl, fun _ => .reconciled date hgoing⟩
  | overflowed hgoing hnote => exact ⟨[], rfl, fun _ => .overflowed hgoing hnote⟩
  | noted hgoing hnote => exact ⟨[], rfl, fun _ => .noted hgoing hnote⟩
  | answered hgoing => exact ⟨[_], rfl, fun _ => .answered hgoing⟩
  | happened step => exact ⟨[], rfl, fun _ => .happened step⟩

/-- A run goes on the same from a watch with other turns behind it and an earlier time. -/
theorem run?_replay (hrun : w.run? moves = some v) {now : Instant} (hnow : now.nanos ≤ w.now.nanos)
    (l : List Taken) : ∃ newer later, v.taken = newer ++ w.taken ∧
      run? { w with now := now, taken := l } moves =
        some { v with now := later, taken := newer ++ l } := by
  induction moves generalizing w now l with
  | nil =>
    cases hrun
    exact ⟨[], now, rfl, rfl⟩
  | cons m rest ih =>
    obtain ⟨w', hmove, hrest⟩ := run?_cons.1 hrun
    obtain ⟨htime, hacts⟩ := move?_eq_some_iff.1 hmove
    obtain ⟨first, hfirst, hacts'⟩ := hacts.replay
    have hmove' : move? { w with now := now, taken := l } m = some { w' with taken := first ++ l } :=
      move?_eq_some_iff.2 ⟨Int.le_trans hnow htime, hacts' l⟩
    obtain ⟨newer, later, htaken, hrun'⟩ := ih hrest (Int.le_refl _) (first ++ l)
    refine ⟨newer ++ first, later, ?_, run?_cons.2 ⟨_, hmove', ?_⟩⟩
    · rw [htaken, hfirst, List.append_assoc]
    · rw [List.append_assoc]
      exact hrun'

/-! ## Reports -/

/-- A report is put off only for a requeue that is not due yet, and adds no more than its own turn. -/
theorem Follows.of_putOff (h : w.Follows name) {time : Instant}
    (hmove : w.move? ⟨time, .report name generation⟩ = some w') (hidle' : w'.going.get? name = none) :
    ∃ t delay, w.last? name = some t ∧ t.turn.result = some (.ok (some delay)) ∧
      t.generation = generation ∧ time.nanos < t.noted.nanos + delay.nanos ∧
      w' = { w with
        now := time
        taken := ⟨name, generation, time, time, time,
          { result := none, delay := ⟨(t.noted.nanos + delay.nanos - time.nanos).toNat⟩ }⟩ :: w.taken } := by
  obtain ⟨htime, hacts⟩ := move?_eq_some_iff.1 hmove
  have hnow := h.later htime
  cases hacts with
  | admitted => simp at hidle'
  | deferred hopen hidle hwait =>
    obtain ⟨t, delay, hlast, hresult, hgeneration, hearly, rfl⟩ := hnow.last_of_wait hidle hwait
    have hreset : w.watcher.retries.reset name = w.watcher.retries := hnow.reset_eq hidle hwait
    refine ⟨t, delay, hlast, hresult, hgeneration, hearly, ?_⟩
    simp only [Watcher.defer, hreset]

/-- Where the last reconciliation asked for no requeue, a report is let through. -/
theorem Follows.let_through (h : w.Follows name) {time : Instant}
    (hmove : w.move? ⟨time, .report name generation⟩ = some w')
    (hlast : ∀ t delay, w.last? name = some t → t.turn.result ≠ some (.ok (some delay))) :
    w'.going.get? name = some ⟨generation, time, .admitted⟩ := by
  obtain ⟨htime, hacts⟩ := move?_eq_some_iff.1 hmove
  have hnow := h.later htime
  cases hacts with
  | admitted => rw [SortedMap.get?_insert, if_pos rfl]
  | deferred hopen hidle hwait =>
    obtain ⟨t, delay, ht, hresult, -⟩ := hnow.last_of_wait hidle hwait
    exact absurd hresult (hlast t delay ht)

/-! ## Main theorem -/

/-- In every run the delay after a failed reconciliation is that of the failures in a row, itself
included. A report is put off only where the record's last reconciliation asked, at the same
generation, for a requeue that is not due yet; the report then asks for the rest of that wait,
and nothing else comes of it: whatever happens next comes to the same without it. So a report after
a failed reconciliation, or after one that asked for no requeue, is let through. -/
theorem delays_count_failures {world : World} {resync : Span} {now : Instant}
    (hrun : (start world resync now).run? moves = some w) :
    (∀ later t earlier e, w.taken = later ++ t :: earlier → t.turn.result = some (.error e) →
      t.turn.delay =
        .ofSeconds (60 * min (streak t.ended (reconciling t.name earlier) + 1).fib 10)) ∧
    (∀ {time name generation w'}, w.move? ⟨time, .report name generation⟩ = some w' →
      w'.going.get? name = none →
      ∃ t delay, w.last? name = some t ∧ t.turn.result = some (.ok (some delay)) ∧
        t.generation = generation ∧ time.nanos < t.noted.nanos + delay.nanos ∧
        let wait : Span := ⟨(t.noted.nanos + delay.nanos - time.nanos).toNat⟩
        let putOff : Taken := ⟨name, generation, time, time, time, { result := none, delay := wait }⟩
        w' = { w with now := time, taken := putOff :: w.taken } ∧
        ∀ {rest v}, w'.run? rest = some v → ∃ newer later, v.taken = newer ++ putOff :: w.taken ∧
          w.run? rest = some { v with now := later, taken := newer ++ w.taken }) ∧
    ∀ {time name generation w'}, w.move? ⟨time, .report name generation⟩ = some w' →
      (∀ t delay, w.last? name = some t → t.turn.result ≠ some (.ok (some delay))) →
      w'.going.get? name = some ⟨generation, time, .admitted⟩ := by
  obtain ⟨hfollows, hdelays⟩ := follows_of_run hrun
  refine ⟨fun later t earlier e htaken => hdelays later t earlier htaken e, ?_, ?_⟩
  · intro time name generation w' hmove hidle'
    obtain ⟨t, delay, hlast, hresult, hgeneration, hearly, rfl⟩ :=
      (hfollows name).of_putOff hmove hidle'
    refine ⟨t, delay, hlast, hresult, hgeneration, hearly, rfl, fun {rest v} hrest => ?_⟩
    have htime : w.now.nanos ≤ time.nanos := (move?_eq_some_iff.1 hmove).1
    exact run?_replay hrest htime w.taken
  · intro time name generation w' hmove hlast
    exact (hfollows name).let_through hmove hlast

/-- Three statuses of a machine that is to be woken are refused, at 0 s, 60 s and 120 s: the third delay
counts three failures. The report after that goes through; the one at 250 s, after the machine was
woken at 240 s, is put off for the 50 s that are left. -/
theorem delays_count_failures_contested :
    let world := World.start [Server.asleep.withPowerState .on] [] 3 (.ofSeconds 60)
    let w := start world (.ofSeconds 300) ⟨0⟩
    let turn : Nat → List Move := fun s => movesOf "m1" (some 1) ⟨.ofSeconds s, .ofSeconds s, .noon⟩
    let report : Nat → Move := fun s => ⟨.ofSeconds s, .report "m1" (some 1)⟩
    let refused := List.replicate 3 ⟨⟨0⟩, .happen (.conflictNext "m1")⟩ ++ turn 0 ++ turn 60 ++ turn 120
    (∃ u t earlier e admitted, w.run? refused = some u ∧ u.taken = t :: earlier ∧
      t.turn.result = some (.error e) ∧ streak t.ended (reconciling t.name earlier) = 2 ∧
      t.turn.delay = .ofSeconds (60 * min (2 + 1).fib 10) ∧
      u.move? (report 130) = some admitted ∧ (∀ last, u.last? "m1" = some last → last.failed) ∧
      admitted.going.get? "m1" = some ⟨some 1, .ofSeconds 130, .admitted⟩) ∧
    ∃ u v, w.run? (refused ++ turn 240) = some u ∧ u.move? (report 250) = some v ∧
      v.going.get? "m1" = none ∧ v.watcher = u.watcher ∧
      v.taken.head?.map (·.turn.delay) = some (.ofSeconds 50) := by
  intro world w turn report refused
  refine ⟨?_, ?_⟩
  · have hrun : (w.run? (refused ++ report 130 :: [])).isSome := by decide +kernel
    obtain ⟨u, admitted, hu, hadmitted, -⟩ := run?_split hrun
    have hlast : ∀ x ∈ w.run? refused, x.taken.head?.map (·.turn.result) =
        some (some (.error (.store (.conflict "m1")))) := by decide +kernel
    have hstreak : ∀ x ∈ w.run? refused, x.taken.head?.map (fun t =>
        streak t.ended (reconciling t.name x.taken.tail)) = some 2 := by decide +kernel
    have hfailed : ∀ x ∈ w.run? refused, ∀ last ∈ x.last? "m1", last.failed := by decide +kernel
    obtain ⟨t, hhead, hresult⟩ := Option.map_eq_some_iff.1 (hlast u hu)
    obtain ⟨earlier, htaken⟩ := List.head?_eq_some_iff.1 hhead
    have hcount := hstreak u hu
    rw [htaken] at hcount
    have hcount : streak t.ended (reconciling t.name earlier) = 2 := Option.some.inj hcount
    obtain ⟨hdelay, -, hfree⟩ := delays_count_failures hu
    have hwait := hdelay [] t earlier _ htaken hresult
    rw [hcount] at hwait
    refine ⟨u, t, earlier, _, admitted, hu, htaken, hresult, hcount, hwait, hadmitted, hfailed u hu,
      hfree hadmitted fun last delay hl hr => ?_⟩
    have hf := hfailed u hu last hl
    unfold Taken.failed at hf
    rw [hr] at hf
    cases hf
  · have hrun : (w.run? (refused ++ turn 240 ++ report 250 :: [])).isSome := by decide +kernel
    obtain ⟨u, v, hu, hv, -⟩ := run?_split hrun
    have hidle : ∀ x ∈ w.run? (refused ++ turn 240 ++ [report 250]), (x.going.get? "m1").isNone := by
      decide +kernel
    have hidle := Option.isNone_iff_eq_none.1 (hidle v (run?_concat hu hv))
    have hwait : ∀ x ∈ w.run? (refused ++ turn 240 ++ [report 250]),
        x.taken.head?.map (·.turn.delay) = some (.ofSeconds 50) := by decide +kernel
    obtain ⟨t, delay, -, -, -, -, hsame, -⟩ := (delays_count_failures hu).2.1 hv hidle
    exact ⟨u, v, hu, hv, hidle, by rw [hsame], hwait v (run?_concat hu hv)⟩

end Watch

end MetalPool
