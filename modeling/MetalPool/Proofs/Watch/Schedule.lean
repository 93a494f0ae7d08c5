import MetalPool.Proofs.Watch.Gate
import MetalPool.Proofs.Watch.Retries
import MetalPool.Proofs.World.Run
import MetalPool.Watch.Watcher
/-!
# Turns side by side

Turns of different records go on side by side. The gate meets a report, the
record is reconciled, what that asked for is noted, and the delay is asked for,
each at a time of its own; in between the turns of other records go on, and
anything may happen in the world. A record has one turn at a time, the clock does
not go back, and a requeue too far away to be noted ends its turn and keeps later
reports from being taken, while the turns that go on come to their end.

A `Watch` keeps the turns that go on and those that are over. `Acts` says what
each move does to it. The moves of one turn in a row do what `Watcher.turn` does
(`run?_turn`).
-/

namespace MetalPool

/-- How far a turn that the gate let through has come. -/
inductive Progress where
  | admitted
  | reconciled (result : Reconciled)
  | noted (time : Instant) (result : Reconciled)

/-- A turn that goes on. -/
structure Going where
  generation : Option Int64
  started : Instant
  progress : Progress

/-- A turn that is over. -/
structure Taken where
  name : String
  generation : Option Int64
  started : Instant
  /-- When it was noted what the reconciliation asked for. -/
  noted : Instant
  ended : Instant
  turn : Turn

structure Watch where
  watcher : Watcher
  world : World
  now : Instant
  going : SortedMap Going := .empty
  /-- The turns that are over, the last one first. -/
  taken : List Taken := []
  /-- No report is taken any more. -/
  stopped : Bool := false

inductive Act where
  | report (name : String) (generation : Option Int64)
  | reconcile (name : String) (date : Timestamp)
  | note (name : String)
  | answer (name : String)
  | happen (step : Step)

/-- The record whose turn the act is part of. -/
def Act.subject : Act → Option String
  | .report name _ | .reconcile name _ | .note name | .answer name => some name
  | .happen _ => none

structure Move where
  time : Instant
  act : Act

theorem Watcher.answer_gate (w : Watcher) (name : String) (now : Instant) (result : Reconciled) :
    (w.answer name now result).2.gate = w.gate := by
  cases result <;> rfl

namespace Watch

/-- A watch without turns. -/
def start (world : World) (resync : Span) (now : Instant) : Watch :=
  { watcher := { resync }, world, now }

/-- The watch after an act, if it can be done now. -/
def act? (w : Watch) : Act → Option Watch
  | .report name generation =>
    if w.stopped || (w.going.get? name).isSome then none
    else
      match w.watcher.gate.remaining name generation w.now with
      | some wait =>
        let (turn, watcher) := w.watcher.defer name wait
        some { w with watcher, taken := ⟨name, generation, w.now, w.now, w.now, turn⟩ :: w.taken }
      | none => some { w with going := w.going.insert name ⟨generation, w.now, .admitted⟩ }
  | .reconcile name date =>
    match w.going.get? name with
    | some ⟨generation, started, .admitted⟩ =>
      let (result, world) := w.world.reconcile name date
      some { w with world, going := w.going.insert name ⟨generation, started, .reconciled result⟩ }
    | _ => none
  | .note name =>
    match w.going.get? name with
    | some ⟨generation, started, .reconciled result⟩ =>
      match w.watcher.note name generation w.now result with
      | (.error _, watcher) => some { w with watcher, going := w.going.erase name, stopped := true }
      | (.ok _, watcher) =>
        some { w with
          watcher
          going := w.going.insert name ⟨generation, started, .noted w.now result⟩ }
    | _ => none
  | .answer name =>
    match w.going.get? name with
    | some ⟨generation, started, .noted noted result⟩ =>
      let (turn, watcher) := w.watcher.answer name w.now result
      some { w with
        watcher
        going := w.going.erase name
        taken := ⟨name, generation, started, noted, w.now, turn⟩ :: w.taken }
    | _ => none
  | .happen step => some { w with world := (w.world.step step).2 }

/-- The watch after a move, if it is not in the past and can be done. -/
def move? (w : Watch) (m : Move) : Option Watch :=
  if m.time.nanos < w.now.nanos then none else act? { w with now := m.time } m.act

/-- The watch after the moves in order. -/
def run? (w : Watch) : List Move → Option Watch
  | [] => some w
  | m :: rest => (w.move? m).bind (run? · rest)

/-- What an act does, in seven cases. -/
inductive Acts (w : Watch) : Act → Watch → Prop where
  | deferred {name : String} {generation : Option Int64} {wait : Span} (hopen : w.stopped = false)
    (hidle : w.going.get? name = none)
    (hwait : w.watcher.gate.remaining name generation w.now = some wait) :
    Acts w (.report name generation)
      { w with
        watcher := (w.watcher.defer name wait).2
        taken := ⟨name, generation, w.now, w.now, w.now, (w.watcher.defer name wait).1⟩ :: w.taken }
  | admitted {name : String} {generation : Option Int64} (hopen : w.stopped = false)
    (hidle : w.going.get? name = none)
    (hfree : w.watcher.gate.remaining name generation w.now = none) :
    Acts w (.report name generation)
      { w with going := w.going.insert name ⟨generation, w.now, .admitted⟩ }
  | reconciled {name : String} {generation : Option Int64} {started : Instant} (date : Timestamp)
    (hgoing : w.going.get? name = some ⟨generation, started, .admitted⟩) :
    Acts w (.reconcile name date)
      { w with
        world := (w.world.reconcile name date).2
        going := w.going.insert name
          ⟨generation, started, .reconciled (w.world.reconcile name date).1⟩ }
  | overflowed {name : String} {generation : Option Int64} {started : Instant} {result : Reconciled}
    {e : TimeOverflow} (hgoing : w.going.get? name = some ⟨generation, started, .reconciled result⟩)
    (hnote : (w.watcher.note name generation w.now result).1 = .error e) :
    Acts w (.note name)
      { w with
        watcher := (w.watcher.note name generation w.now result).2
        going := w.going.erase name
        stopped := true }
  | noted {name : String} {generation : Option Int64} {started : Instant} {result : Reconciled}
    (hgoing : w.going.get? name = some ⟨generation, started, .reconciled result⟩)
    (hnote : (w.watcher.note name generation w.now result).1 = .ok ()) :
    Acts w (.note name)
      { w with
        watcher := (w.watcher.note name generation w.now result).2
        going := w.going.insert name ⟨generation, started, .noted w.now result⟩ }
  | answered {name : String} {generation : Option Int64} {started noted : Instant} {result : Reconciled}
    (hgoing : w.going.get? name = some ⟨generation, started, .noted noted result⟩) :
    Acts w (.answer name)
      { w with
        watcher := (w.watcher.answer name w.now result).2
        going := w.going.erase name
        taken := ⟨name, generation, started, noted, w.now, (w.watcher.answer name w.now result).1⟩ ::
          w.taken }
  | happened (step : Step) : Acts w (.happen step) { w with world := (w.world.step step).2 }

variable {w w' v : Watch} {m : Move} {a : Act} {moves rest : List Move} {name : String}
  {generation : Option Int64}

theorem acts_of_act? (h : w.act? a = some w') : w.Acts a w' := by
  cases a with
  | report name generation =>
    dsimp only [act?] at h
    cases hopen : w.stopped with
    | true => simp [hopen] at h
    | false =>
      cases hidle : w.going.get? name with
      | some going => simp [hidle] at h
      | none =>
        rw [if_neg (by simp [hopen, hidle])] at h
        cases hwait : w.watcher.gate.remaining name generation w.now with
        | some wait =>
          rw [hwait] at h
          cases h
          exact .deferred hopen hidle hwait
        | none =>
          rw [hwait] at h
          cases h
          exact .admitted hopen hidle hwait
  | reconcile name date =>
    dsimp only [act?] at h
    split at h
    · rename_i hgoing
      cases h
      exact .reconciled date hgoing
    · cases h
  | note name =>
    dsimp only [act?] at h
    split at h
    · rename_i generation started result hgoing
      cases hnote : (w.watcher.note name generation w.now result).1 with
      | error e =>
        rw [← Prod.eta (w.watcher.note name generation w.now result), hnote] at h
        cases h
        exact .overflowed hgoing hnote
      | ok u =>
        rw [← Prod.eta (w.watcher.note name generation w.now result), hnote] at h
        cases h
        exact .noted hgoing hnote
    · cases h
  | answer name =>
    dsimp only [act?] at h
    split at h
    · rename_i hgoing
      cases h
      exact .answered hgoing
    · cases h
  | happen step =>
    cases h
    exact .happened step

theorem Acts.act?_eq (h : w.Acts a w') : w.act? a = some w' := by
  cases h with
  | deferred hopen hidle hwait | admitted hopen hidle hwait =>
    dsimp only [act?]
    rw [if_neg (by simp [hopen, hidle]), hwait]
  | reconciled date hgoing => simp only [act?, hgoing]
  | @overflowed name generation _ result _ hgoing hnote | @noted name generation _ result hgoing hnote =>
    simp only [act?, hgoing]
    rw [← Prod.eta (w.watcher.note name generation w.now result), hnote]
  | answered hgoing => simp only [act?, hgoing]
  | happened => rfl

/-- A move is done if it is not in the past, and does its act at its time. -/
theorem move?_eq_some_iff :
    w.move? m = some w' ↔ w.now.nanos ≤ m.time.nanos ∧ Acts { w with now := m.time } m.act w' := by
  unfold move?
  constructor
  · intro h
    split at h
    · cases h
    · exact ⟨by omega, acts_of_act? h⟩
  · rintro ⟨htime, h⟩
    rw [if_neg (by omega)]
    exact h.act?_eq

theorem move?_of_acts (w : Watch) {time : Instant} (htime : w.now.nanos ≤ time.nanos)
    (h : Acts { w with now := time } a w') : w.move? ⟨time, a⟩ = some w' :=
  move?_eq_some_iff.2 ⟨htime, h⟩

theorem Acts.now_eq (h : w.Acts a w') : w'.now = w.now := by
  cases h <;> rfl

/-- A turn of another record shows neither in the turns of this one nor in how long it is held back. -/
theorem Acts.of_ne (h : w.Acts a w') (hne : a.subject ≠ some name) :
    w'.going.get? name = w.going.get? name ∧
      ∀ g t, w.now.nanos ≤ t.nanos →
        w'.watcher.gate.remaining name g t = w.watcher.gate.remaining name g t := by
  have hnote : ∀ {n : String} {g : Option Int64} {result : Reconciled}, name ≠ n → ∀ g' t,
      w.now.nanos ≤ t.nanos → (w.watcher.note n g w.now result).2.gate.remaining name g' t =
        w.watcher.gate.remaining name g' t := by
    intro n g result hn g' t ht
    exact Gate.remaining_record_of_ne hn ht
  cases h with
  | deferred => exact ⟨rfl, fun _ _ _ => rfl⟩
  | admitted | reconciled =>
    have hn := ne_of_apply_ne some hne.symm
    exact ⟨by simp [hn], fun _ _ _ => rfl⟩
  | overflowed | noted =>
    have hn := ne_of_apply_ne some hne.symm
    exact ⟨by simp [hn], hnote hn⟩
  | answered =>
    have hn := ne_of_apply_ne some hne.symm
    exact ⟨by simp [hn], fun _ _ _ => by rw [Watcher.answer_gate]⟩
  | happened => exact ⟨rfl, fun _ _ _ => rfl⟩

theorem Acts.stopped_of (h : w.Acts a w') (hstopped : w.stopped = true) : w'.stopped = true := by
  cases h with
  | overflowed => rfl
  | _ => exact hstopped

@[simp] theorem run?_nil (w : Watch) : w.run? [] = some w := rfl

theorem run?_cons : w.run? (m :: rest) = some v ↔ ∃ w', w.move? m = some w' ∧ w'.run? rest = some v :=
  Option.bind_eq_some_iff

theorem run?_append :
    w.run? (moves ++ rest) = some v ↔ ∃ w', w.run? moves = some w' ∧ w'.run? rest = some v := by
  induction moves generalizing w with
  | nil => simp
  | cons m moves ih => simp only [List.cons_append, run?_cons, ih]; grind

theorem run?_concat (hrun : w.run? moves = some w') (hmove : w'.move? m = some v) :
    w.run? (moves ++ [m]) = some v :=
  run?_append.2 ⟨w', hrun, run?_cons.2 ⟨v, hmove, rfl⟩⟩

/-- A run that is possible can be halted at any of its moves. -/
theorem run?_split (h : (w.run? (moves ++ m :: rest)).isSome) :
    ∃ u v, w.run? moves = some u ∧ u.move? m = some v ∧ (v.run? rest).isSome := by
  obtain ⟨x, hx⟩ := Option.isSome_iff_exists.1 h
  obtain ⟨u, hu, hrest⟩ := run?_append.1 hx
  obtain ⟨v, hv, hend⟩ := run?_cons.1 hrest
  exact ⟨u, v, hu, hv, Option.isSome_iff_exists.2 ⟨x, hend⟩⟩

/-- What holds at the start and is kept by every move of the run holds at its end. -/
theorem run?_inv {I : Watch → Prop} {p : Move → Prop}
    (hstep : ∀ w m w', I w → p m → w.move? m = some w' → I w') (hmoves : ∀ m ∈ moves, p m) (h : I w)
    (hrun : w.run? moves = some v) : I v := by
  induction moves generalizing w with
  | nil =>
    cases hrun
    exact h
  | cons m rest ih =>
    obtain ⟨hm, hrest⟩ := List.forall_mem_cons.1 hmoves
    obtain ⟨w', hmove, hrun⟩ := run?_cons.1 hrun
    exact ih hrest (hstep w m w' h hm hmove) hrun

/-! ## One turn in a row -/

/-- The moves of one turn. -/
def movesOf (name : String) (generation : Option Int64) (times : TurnTimes) : List Move :=
  [⟨times.start, .report name generation⟩, ⟨times.start, .reconcile name times.date⟩,
    ⟨times.finish, .note name⟩, ⟨times.finish, .answer name⟩]

/-- The watch after a report that is let through and reconciled at once. -/
def reconciledAt (w : Watch) (name : String) (generation : Option Int64) (times : TurnTimes) : Watch :=
  let admitted := w.going.insert name ⟨generation, times.start, .admitted⟩
  let (result, world) := w.world.reconcile name times.date
  { w with
    world
    now := times.start
    going := admitted.insert name ⟨generation, times.start, .reconciled result⟩ }

variable {times : TurnTimes}

theorem run?_reconciledAt (hopen : w.stopped = false) (hidle : w.going.get? name = none)
    (hstart : w.now.nanos ≤ times.start.nanos)
    (hfree : w.watcher.gate.remaining name generation times.start = none) :
    w.run? ((movesOf name generation times).take 2) = some (w.reconciledAt name generation times) := by
  have hadmitted := move?_of_acts w hstart (.admitted hopen hidle hfree)
  refine run?_cons.2 ⟨_, hadmitted, run?_cons.2 ⟨_, ?_, rfl⟩⟩
  exact move?_of_acts _ (Int.le_refl _) (.reconciled times.date (by simp))

/-- With nothing between them, the moves of a turn, as many as there are, do what the turn does. -/
theorem run?_turn (hopen : w.stopped = false) (hidle : w.going.get? name = none)
    (hstart : w.now.nanos ≤ times.start.nanos) (hfinish : times.start.nanos ≤ times.finish.nanos) :
    ∃ n v, w.run? ((movesOf name generation times).take n) = some v ∧
      (w.watcher.turn w.world name generation times).2 = (v.watcher, v.world) ∧
      (∀ k, v.going.get? k = w.going.get? k) ∧
      match (w.watcher.turn w.world name generation times).1 with
      | .ok turn => v.stopped = false ∧ v.taken.head?.map (·.turn) = some turn
      | .error _ => v.stopped = true := by
  unfold Watcher.turn
  cases hwait : w.watcher.gate.remaining name generation times.start with
  | some wait =>
    have hdeferred := move?_of_acts w hstart (.deferred hopen hidle hwait)
    exact ⟨1, _, run?_cons.2 ⟨_, hdeferred, rfl⟩, rfl, fun _ => rfl, hopen, rfl⟩
  | none =>
    let result := (w.world.reconcile name times.date).1
    let reconciled := w.reconciledAt name generation times
    have hrun := run?_reconciledAt hopen hidle hstart hwait
    have hgoing : reconciled.going.get? name =
        some ⟨generation, times.start, .reconciled result⟩ := by
      simp [reconciled, reconciledAt, result]
    have hgone : ∀ k, (reconciled.going.erase name).get? k = w.going.get? k := by
      intro k
      by_cases hk : k = name
      · simp [hk, hidle]
      · simp [reconciled, reconciledAt, hk]
    unfold Watcher.settle
    cases hnote : (w.watcher.note name generation times.finish result).1 with
    | error e =>
      have hnoted := move?_of_acts reconciled hfinish (.overflowed hgoing hnote)
      refine ⟨3, _, run?_append.2 ⟨_, hrun, run?_cons.2 ⟨_, hnoted, rfl⟩⟩, ?_⟩
      dsimp only
      rw [← Prod.eta (w.watcher.note name generation times.finish result), hnote]
      exact ⟨rfl, hgone, rfl⟩
    | ok u =>
      let noted : Watch := { reconciled with
        now := times.finish
        watcher := (w.watcher.note name generation times.finish result).2
        going := reconciled.going.insert name
          ⟨generation, times.start, .noted times.finish result⟩ }
      have hnoted : reconciled.move? ⟨times.finish, .note name⟩ = some noted :=
        move?_of_acts reconciled hfinish (.noted hgoing hnote)
      have hlast : noted.going.get? name =
          some ⟨generation, times.start, .noted times.finish result⟩ := by
        simp [noted]
      have hanswered := move?_of_acts noted (Int.le_refl times.finish.nanos) (.answered hlast)
      refine ⟨4, _, run?_append.2 ⟨_, hrun, run?_cons.2 ⟨_, hnoted, run?_cons.2 ⟨_, hanswered, rfl⟩⟩⟩,
        ?_⟩
      dsimp only
      rw [← Prod.eta (w.watcher.note name generation times.finish result), hnote]
      refine ⟨rfl, fun k => ?_, hopen, rfl⟩
      by_cases hk : k = name
      · simp [hk, hidle]
      · simpa [noted, hk] using hgone k

end Watch

end MetalPool
