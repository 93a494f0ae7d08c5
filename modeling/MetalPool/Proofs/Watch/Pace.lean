import MetalPool.Proofs.Watch.Schedule
import MetalPool.Proofs.World.Command
import MetalPool.Proofs.World.Failures
/-!
# The pace of failures

`HeldUntil` says that no report on a record at one generation is reconciled
before some time. A requeue noted brings that about, and it stays so whatever the
turns of other records and the world do, unless a report at another generation
is reconciled (`HeldUntil.run`). A reconciliation that raises the failure count
asks for a requeue, so a streak grows no faster than by one failure per requeue
(`streak_keeps_pace`).
-/

namespace MetalPool

namespace World

/-- A reconciliation of the record issues a command that succeeds, and stores the status. -/
def Commands (w : World) (name : String) (date : Timestamp) : Prop :=
  ((w.reconcile name date).2.plant.callsSince w.plant).powerCalls ≠ [] ∧ (w.reconcile name date).1.isOk

/-- A reconciliation of the record gives it up for the failures counted. -/
def Freezes (w : World) (name : String) : Prop :=
  ∃ server status, w.store.get name = some server ∧
    server.statusOrDefault.precheck server.spec w.threshold = .frozen status

variable {w : World} {name : String} {date : Timestamp}

instance : Decidable (w.Commands name date) := inferInstanceAs (Decidable (_ ∧ _))

theorem Commands.result_eq (h : w.Commands name date) :
    (w.reconcile name date).1 = .ok (some w.requeue) := by
  obtain ⟨hcalls, hok⟩ := h
  cases hg : w.store.get name with
  | none => exact absurd (reconcile_calls_of_none hg date) hcalls
  | some server =>
    obtain ⟨r, hd, hp, ⟨hr, -⟩ | hc⟩ := reconcile_cases hg date
    · rw [hr] at hok
      cases hok
    · rw [hp, carry_powerCalls] at hcalls
      rw [hc.result_eq] at hok ⊢
      cases hd with
      | refused => cases hok
      | commanded => rfl
      | _ => exact absurd rfl hcalls

theorem freezes_iff {server : Server} (hg : w.store.get name = some server) :
    w.Freezes name ↔ server.statusOrDefault.phase ≠ some .failed ∧
      w.threshold ≤ server.statusOrDefault.failureCount := by
  constructor
  · rintro ⟨other, status, ho, hfrozen⟩
    rw [hg] at ho
    cases ho
    unfold ServerStatus.precheck at hfrozen
    split at hfrozen
    · cases hfrozen
    · rename_i hf
      split at hfrozen
      · rename_i hle
        exact ⟨hf, hle⟩
      · split at hfrozen <;> cases hfrozen
  · rintro ⟨hf, hle⟩
    refine ⟨server, server.statusOrDefault.fail
      (ServerStatus.thresholdMessage server.statusOrDefault.failureCount), hg, ?_⟩
    unfold ServerStatus.precheck
    rw [if_neg hf, if_pos hle]

theorem Freezes.threshold_le (h : w.Freezes name) : w.threshold.toNat ≤ (w.failures name).toNat := by
  obtain ⟨server, -, hg, -⟩ := id h
  rw [failures_of_get hg]
  exact UInt32.le_iff_toNat_le.1 ((freezes_iff hg).1 h).2

end World

/-- The move reports the record called `name` at no other generation than `generation`, and nobody
but the watch writes its status in it. -/
def Move.Apart (name : String) (generation : Option Int64) (m : Move) : Prop :=
  match m.act with
  | .report n g => n = name → g = generation
  | .happen step => step.SparesStatusOf name
  | _ => True

namespace Watch

/-- The gate holds the record back at `generation` until `e`. -/
def GateHolds (w : Watch) (name : String) (generation : Option Int64) (e : Int) : Prop :=
  ∀ t : Instant, w.now.nanos ≤ t.nanos → t.nanos < e →
    (w.watcher.gate.remaining name generation t).isSome

/-- What keeps reports at `generation` from being reconciled before `e`, by how far the record's turn
has come. -/
def Holds (w : Watch) (name : String) (generation : Option Int64) (e : Int) : Option Going → Prop
  | none => w.stopped = true ∨ w.GateHolds name generation e
  | some ⟨g, _, .admitted⟩ => g ≠ generation
  | some ⟨g, _, .reconciled result⟩ =>
    g = generation ∧ ∃ delay, result = .ok (some delay) ∧ e ≤ w.now.nanos + delay.nanos
  | some ⟨_, _, .noted ..⟩ => w.GateHolds name generation e

/-- No report on the record at `generation` is reconciled before `e`, unless one at another
generation is. -/
def HeldUntil (w : Watch) (name : String) (generation : Option Int64) (e : Int) : Prop :=
  e ≤ w.now.nanos ∨ w.Holds name generation e (w.going.get? name)

/-- The move reconciles a report on the record at another generation than `generation`. -/
def ReconcilesOther (w : Watch) (name : String) (generation : Option Int64) (m : Move) : Prop :=
  ∃ date g started, m.act = .reconcile name date ∧
    w.going.get? name = some ⟨g, started, .admitted⟩ ∧ g ≠ generation

variable {w w' v : Watch} {m : Move} {moves rest : List Move} {name : String}
  {generation : Option Int64} {e e' : Int} {delay : Span} {started : Instant}

theorem GateHolds.mono (h : w.GateHolds name generation e) (he : e' ≤ e) :
    w.GateHolds name generation e' :=
  fun t ht hlt => h t ht (Int.lt_of_lt_of_le hlt he)

/-- What holds a record back does so later too, if the gate goes on as it was. -/
theorem Holds.later {going : Option Going} (h : w.Holds name generation e going)
    (hnow : w.now.nanos ≤ w'.now.nanos) (hstopped : w.stopped = true → w'.stopped = true)
    (hgate : ∀ t : Instant, w'.now.nanos ≤ t.nanos → w'.watcher.gate.remaining name generation t =
      w.watcher.gate.remaining name generation t) : w'.Holds name generation e going := by
  have hholds : w.GateHolds name generation e → w'.GateHolds name generation e := by
    intro hg t ht hlt
    rw [hgate t ht]
    exact hg t (Int.le_trans hnow ht) hlt
  match going with
  | none => exact h.imp hstopped hholds
  | some ⟨_, _, .admitted⟩ => exact h
  | some ⟨_, _, .reconciled _⟩ =>
    obtain ⟨hg, delay, hr, hle⟩ := h
    exact ⟨hg, delay, hr, by omega⟩
  | some ⟨_, _, .noted ..⟩ => exact hholds h

theorem HeldUntil.mono (h : w.HeldUntil name generation e) (he : e' ≤ e) :
    w.HeldUntil name generation e' := by
  unfold HeldUntil at h ⊢
  rcases h with h | h
  · exact .inl (Int.le_trans he h)
  · refine .inr ?_
    generalize w.going.get? name = going at h ⊢
    match going with
    | none => exact h.imp_right fun hg => hg.mono he
    | some ⟨_, _, .admitted⟩ => exact h
    | some ⟨_, _, .reconciled _⟩ =>
      obtain ⟨hg, delay, hr, hle⟩ := h
      exact ⟨hg, delay, hr, Int.le_trans he hle⟩
    | some ⟨_, _, .noted ..⟩ => exact h.mono he

/-- A report on the record is let through at its time. -/
theorem HeldUntil.le_of_admitted (h : w.HeldUntil name generation e)
    (hgoing : w.going.get? name = some ⟨generation, started, .admitted⟩) : e ≤ w.now.nanos := by
  unfold HeldUntil at h
  rw [hgoing] at h
  exact h.resolve_right fun hne => hne rfl

/-! ## One move -/

theorem HeldUntil.later (h : w.HeldUntil name generation e) {time : Instant}
    (htime : w.now.nanos ≤ time.nanos) : HeldUntil { w with now := time } name generation e :=
  h.imp (fun hle => Int.le_trans hle htime) fun hholds => hholds.later htime id fun _ _ => rfl

/-- A requeue that is noted holds the record back, or else it stops the watch. -/
theorem heldUntil_of_note
    (hgoing : w.going.get? name = some ⟨generation, started, .reconciled (.ok (some delay))⟩)
    (hacts : w.Acts (.note name) w') : w'.HeldUntil name generation (w.now.nanos + delay.nanos) := by
  unfold HeldUntil
  cases hacts with
  | overflowed =>
    rw [SortedMap.get?_erase, if_pos rfl]
    exact .inr (.inl rfl)
  | noted hgoing' hnote =>
    cases hgoing.symm.trans hgoing'
    rw [SortedMap.get?_insert, if_pos rfl]
    refine .inr fun t _ hlt => ?_
    have hentry : (w.watcher.note name generation w.now (.ok (some delay))).2.gate.remaining name
        generation t = (GateEntry.mk generation ⟨w.now.nanos + delay.nanos⟩).wait? generation t :=
      Gate.remaining_record_some hnote
    rw [hentry, GateEntry.wait?, if_pos ⟨rfl, hlt⟩]
    rfl

/-- A report that is let through is at another generation, or the gate holds nothing back. -/
theorem Holds.admitted (h : w.Holds name generation e none) (hopen : w.stopped = false)
    {g : Option Int64} (hfree : w.watcher.gate.remaining name g w.now = none) :
    e ≤ w.now.nanos ∨ g ≠ generation := by
  by_cases hg : g = generation
  · subst hg
    rcases h with h | h
    · cases hopen.symm.trans h
    · -- The gate would have put the report off before `e`.
      refine .inl (Int.not_lt.1 fun hlt => ?_)
      have hwait := h w.now (Int.le_refl _) hlt
      rw [hfree] at hwait
      cases hwait
  · exact .inr hg

/-- What holds a record back keeps doing so, as long as no report at another generation is
reconciled. -/
theorem HeldUntil.act {a : Act} (h : w.HeldUntil name generation e) (hacts : w.Acts a w')
    (hother : ∀ date g started, a = .reconcile name date →
      w.going.get? name = some ⟨g, started, .admitted⟩ → g = generation) :
    w'.HeldUntil name generation e := by
  have hnow : w'.now = w.now := hacts.now_eq
  rcases id h with hle | hholds
  · exact .inl (hnow ▸ hle)
  by_cases hsubject : a.subject = some name
  · -- The act is part of the record's own turn, which has come as far as the act needs.
    have hdone := hacts
    cases hacts with
    | deferred => exact h
    | @admitted _ g hopen hidle hfree =>
      cases hsubject
      unfold HeldUntil
      rw [hidle] at hholds
      rw [SortedMap.get?_insert, if_pos rfl]
      exact hholds.admitted hopen hfree
    | @reconciled _ g started date hgoing =>
      cases hsubject
      rw [hgoing] at hholds
      exact absurd (hother date g started rfl hgoing) hholds
    | overflowed hgoing | noted hgoing =>
      cases hsubject
      rw [hgoing] at hholds
      obtain ⟨rfl, delay, rfl, hle⟩ := hholds
      exact (heldUntil_of_note hgoing hdone).mono hle
    | answered hgoing =>
      cases hsubject
      unfold HeldUntil
      rw [hgoing] at hholds
      rw [SortedMap.get?_erase, if_pos rfl]
      refine .inr (.inr fun t ht hlt => ?_)
      rw [Watcher.answer_gate]
      exact hholds t ht hlt
    | happened => cases hsubject
  · obtain ⟨hgoing, hgate⟩ := hacts.of_ne hsubject
    refine .inr ?_
    rw [hgoing]
    exact hholds.later (Int.le_of_eq (hnow ▸ rfl)) hacts.stopped_of fun t ht =>
      hgate generation t (hnow ▸ ht)

theorem HeldUntil.move (h : w.HeldUntil name generation e) (hmove : w.move? m = some w')
    (hother : ¬w.ReconcilesOther name generation m) : w'.HeldUntil name generation e := by
  obtain ⟨htime, hacts⟩ := move?_eq_some_iff.1 hmove
  refine (h.later htime).act hacts fun date g started hact hgoing => ?_
  exact Decidable.of_not_not fun hne => hother ⟨date, g, started, hact, hgoing, hne⟩

/-- A report that comes before its time is put off. -/
theorem HeldUntil.putOff (h : w.HeldUntil name generation e) {time : Instant}
    (hmove : w.move? ⟨time, .report name generation⟩ = some w') (hearly : time.nanos < e) :
    w'.going.get? name = none ∧ w'.going = w.going ∧ w'.world = w.world := by
  have hheld := h.move hmove (by rintro ⟨_, _, _, hact, -⟩; cases hact)
  cases (move?_eq_some_iff.1 hmove).2 with
  | deferred _ hidle => exact ⟨hidle, rfl, rfl⟩
  | admitted =>
    have hdue := hheld.le_of_admitted ((SortedMap.get?_insert ..).trans (if_pos rfl))
    exact absurd hearly (Int.not_lt.2 hdue)

/-- The whole run keeps the record back, as long as no report at another generation is reconciled. -/
theorem HeldUntil.run (h : w.HeldUntil name generation e) (hrun : w.run? moves = some v)
    (hother : ∀ before m after u, moves = before ++ m :: after → w.run? before = some u →
      ¬u.ReconcilesOther name generation m) : v.HeldUntil name generation e := by
  induction moves generalizing w with
  | nil =>
    cases hrun
    exact h
  | cons m rest ih =>
    obtain ⟨w', hmove, hrun⟩ := run?_cons.1 hrun
    refine ih (h.move hmove (hother [] m rest w rfl rfl)) hrun ?_
    intro before x after u hrest hbefore
    exact hother (m :: before) x after u (by rw [hrest]; rfl) (run?_cons.2 ⟨w', hmove, hbefore⟩)

/-! ## The count of failures -/

/-- The record's turn is that of a report at `generation`, and the settings are those of `world`. -/
structure Steady (w : Watch) (world : World) (name : String) (generation : Option Int64) : Prop where
  generation_eq : ∀ going, w.going.get? name = some going → going.generation = generation
  settings_eq : w.world.settings = world.settings

variable {world : World}

theorem Steady.not_reconcilesOther (h : w.Steady world name generation) :
    ¬w.ReconcilesOther name generation m := by
  rintro ⟨date, g, started, -, hgoing, hne⟩
  exact hne (h.generation_eq _ hgoing)

theorem Steady.requeue_eq (h : w.Steady world name generation) : w.world.requeue = world.requeue :=
  congrArg Prod.snd h.settings_eq

theorem Steady.threshold_eq (h : w.Steady world name generation) :
    w.world.threshold = world.threshold :=
  congrArg Prod.fst h.settings_eq

theorem steady_start (world : World) (resync : Span) (now : Instant) (name : String)
    (generation : Option Int64) : (start world resync now).Steady world name generation where
  generation_eq := by
    intro going h
    cases h
  settings_eq := rfl

theorem Steady.move (h : w.Steady world name generation) (hapart : m.Apart name generation)
    (hmove : w.move? m = some w') : w'.Steady world name generation := by
  obtain ⟨time, act⟩ := m
  obtain ⟨-, hacts⟩ := move?_eq_some_iff.1 hmove
  -- A turn that goes on keeps its generation.
  have hkeep : ∀ {n g started progress progress'}, w.going.get? n = some ⟨g, started, progress⟩ →
      ∀ going, (w.going.insert n ⟨g, started, progress'⟩).get? name = some going →
        going.generation = generation := by
    intro n g started progress progress' hgoing going hg
    rw [SortedMap.get?_insert] at hg
    split at hg
    · rename_i hn
      cases hg
      exact h.generation_eq ⟨g, started, progress⟩ (hn ▸ hgoing)
    · exact h.generation_eq _ hg
  have hdrop : ∀ {n} going, (w.going.erase n).get? name = some going →
      going.generation = generation := by
    intro n going hg
    rw [SortedMap.get?_erase] at hg
    split at hg
    · cases hg
    · exact h.generation_eq _ hg
  cases hacts with
  | deferred => exact ⟨h.generation_eq, h.settings_eq⟩
  | @admitted n g =>
    refine ⟨fun going hg => ?_, h.settings_eq⟩
    rw [SortedMap.get?_insert] at hg
    split at hg
    · rename_i hn
      cases hg
      exact hapart hn.symm
    · exact h.generation_eq _ hg
  | @reconciled n _ _ date hgoing =>
    exact ⟨hkeep hgoing, (World.reconcile_settings w.world n date).trans h.settings_eq⟩
  | overflowed | answered => exact ⟨hdrop, h.settings_eq⟩
  | noted hgoing => exact ⟨hkeep hgoing, h.settings_eq⟩
  | happened step => exact ⟨h.generation_eq, (World.step_settings w.world step).trans h.settings_eq⟩

theorem Steady.run (h : w.Steady world name generation) (hapart : ∀ m ∈ moves, m.Apart name generation)
    (hrun : w.run? moves = some v) : v.Steady world name generation :=
  run?_inv (I := fun w => w.Steady world name generation) (fun _ _ _ h hm hmove => h.move hm hmove)
    hapart h hrun

/-- A move that raises the count is a reconciliation let through by now. The record is held back for
another requeue from then on. -/
theorem Steady.raise (h : w.Steady world name generation) (hapart : m.Apart name generation)
    (hmove : w.move? m = some w')
    (hraise : w.world.failures name < w'.world.failures name) :
    (∃ started, w.going.get? name = some ⟨generation, started, .admitted⟩) ∧
      w'.HeldUntil name generation (m.time.nanos + world.requeue.nanos) ∧
      (w'.world.failures name).toNat = (w.world.failures name).toNat + 1 := by
  obtain ⟨time, act⟩ := m
  obtain ⟨-, hacts⟩ := move?_eq_some_iff.1 hmove
  have hmore := UInt32.lt_iff_toNat_lt.1 hraise
  cases hacts with
  | @reconciled n g started date hgoing =>
    by_cases hn : n = name
    · subst hn
      obtain rfl : g = generation := h.generation_eq _ hgoing
      rcases w.world.reconcile_failures n date with hle | ⟨hresult, hcount⟩
      · exact absurd hle (Nat.not_le.2 hmore)
      · refine ⟨⟨started, hgoing⟩, .inr ?_, hcount⟩
        rw [SortedMap.get?_insert, if_pos rfl]
        refine ⟨rfl, w.world.requeue, hresult, ?_⟩
        rw [h.requeue_eq]
    · have hsame : (w.world.reconcile n date).2.failures name = w.world.failures name := by
        unfold World.failures
        rw [World.reconcile_get_of_ne (Ne.symm hn)]
      exact absurd hmore (by rw [hsame]; exact Nat.lt_irrefl _)
  | happened step =>
    exact absurd hmore (by rw [World.step_failures hapart]; exact Nat.lt_irrefl _)
  | _ => exact absurd hmore (Nat.lt_irrefl _)

/-- The record is held back by a requeue for each failure counted since a command at `t`, and one
more. -/
def Paced (w : Watch) (world : World) (name : String) (generation : Option Int64) (t : Int) : Prop :=
  w.HeldUntil name generation (t + ((w.world.failures name).toNat + 1) * world.requeue.nanos)

theorem Paced.move {t : Int} (h : w.Paced world name generation t)
    (hsteady : w.Steady world name generation) (hapart : m.Apart name generation) (hmove : w.move? m = some w') :
    w'.Paced world name generation t := by
  unfold Paced at h ⊢
  by_cases hraise : w.world.failures name < w'.world.failures name
  · obtain ⟨⟨started, hgoing⟩, hheld, hcount⟩ := hsteady.raise hapart hmove hraise
    have htime := (move?_eq_some_iff.1 hmove).1
    have hnow := h.le_of_admitted hgoing
    have hsum : t + (((w.world.failures name).toNat + 1 : Nat) + 1) * world.requeue.nanos =
        t + ((w.world.failures name).toNat + 1) * world.requeue.nanos + world.requeue.nanos := by
      rw [Nat.cast_add_one, Int.add_mul _ 1, Int.one_mul, Int.add_assoc]
    refine hheld.mono ?_
    rw [hcount, hsum]
    omega
  · have hle : (w'.world.failures name).toNat ≤ (w.world.failures name).toNat := by
      rw [UInt32.lt_iff_toNat_lt] at hraise
      omega
    refine (h.move hmove hsteady.not_reconcilesOther).mono (Int.add_le_add_left ?_ t)
    exact Int.mul_le_mul_of_nonneg_right (by omega) (Int.natCast_nonneg _)

theorem Paced.run {t : Int} (h : w.Paced world name generation t)
    (hsteady : w.Steady world name generation) (hapart : ∀ m ∈ moves, m.Apart name generation)
    (hrun : w.run? moves = some v) : v.Paced world name generation t :=
  (run?_inv (I := fun w => w.Steady world name generation ∧ w.Paced world name generation t)
    (fun _ _ _ h hm hmove => ⟨h.1.move hm hmove, h.2.move h.1 hm hmove⟩) hapart ⟨hsteady, h⟩ hrun).2

theorem HeldUntil.run_of_steady (h : w.HeldUntil name generation e)
    (hsteady : w.Steady world name generation) (hapart : ∀ m ∈ moves, m.Apart name generation)
    (hrun : w.run? moves = some v) : v.HeldUntil name generation e :=
  (run?_inv (I := fun w => w.Steady world name generation ∧ w.HeldUntil name generation e)
    (fun _ _ _ h hm hmove => ⟨h.1.move hm hmove, h.2.move hmove h.1.not_reconcilesOther⟩)
    hapart ⟨hsteady, h⟩ hrun).2

theorem Steady.admitted_of_reconcile (h : w.Steady world name generation) {date : Timestamp}
    (hact : m.act = .reconcile name date) (hmove : w.move? m = some w') :
    ∃ started, w.going.get? name = some ⟨generation, started, .admitted⟩ := by
  obtain ⟨-, hacts⟩ := move?_eq_some_iff.1 hmove
  rw [hact] at hacts
  cases hacts with
  | @reconciled _ g started _ hgoing =>
    obtain rfl : g = generation := h.generation_eq _ hgoing
    exact ⟨started, hgoing⟩

/-- A reconciliation that commands the machine leaves the record held back for a requeue. -/
theorem heldUntil_of_commands {date : Timestamp} (hact : m.act = .reconcile name date)
    (hmove : w.move? m = some w') (hsteady : w.Steady world name generation)
    (hcommands : w.world.Commands name date) :
    w'.HeldUntil name generation (m.time.nanos + world.requeue.nanos) := by
  obtain ⟨-, hacts⟩ := move?_eq_some_iff.1 hmove
  rw [hact] at hacts
  cases hacts with
  | @reconciled _ g started _ hgoing =>
    refine .inr ?_
    rw [SortedMap.get?_insert, if_pos rfl]
    refine ⟨hsteady.generation_eq _ hgoing, w.world.requeue, hcommands.result_eq, ?_⟩
    rw [hsteady.requeue_eq]

/-! ## Two moves -/

section

variable {mid : List Move} {m₁ m₂ : Move} {w₁ v₁ w₂ v₂ : Watch}

theorem requeue_le_of_raises (hsteady : w₁.Steady world name generation)
    (hm₁ : w₁.move? m₁ = some v₁) (hm₁Apart : m₁.Apart name generation)
    (hmid : v₁.run? mid = some w₂) (hmidApart : ∀ m ∈ mid, m.Apart name generation)
    (hm₂ : w₂.move? m₂ = some v₂) (hm₂Apart : m₂.Apart name generation)
    (hraise₁ : w₁.world.failures name < v₁.world.failures name)
    (hraise₂ : w₂.world.failures name < v₂.world.failures name) :
    m₁.time.nanos + world.requeue.nanos ≤ m₂.time.nanos := by
  have hsteady₁ := hsteady.move hm₁Apart hm₁
  have hsteady₂ := hsteady₁.run hmidApart hmid
  obtain ⟨-, hheld, -⟩ := hsteady.raise hm₁Apart hm₁ hraise₁
  obtain ⟨⟨started, hgoing⟩, -⟩ := hsteady₂.raise hm₂Apart hm₂ hraise₂
  have hheld₂ := hheld.run_of_steady hsteady₁ hmidApart hmid
  exact Int.le_trans (hheld₂.le_of_admitted hgoing) (move?_eq_some_iff.1 hm₂).1

theorem requeues_le_of_freezes {date date' : Timestamp} (hsteady : w₁.Steady world name generation)
    (hm₁ : w₁.move? m₁ = some v₁) (hm₁Apart : m₁.Apart name generation)
    (hmid : v₁.run? mid = some w₂) (hmidApart : ∀ m ∈ mid, m.Apart name generation)
    (hm₂ : w₂.move? m₂ = some v₂) (hact₁ : m₁.act = .reconcile name date)
    (hcommands : w₁.world.Commands name date) (hzero : v₁.world.failures name = 0)
    (hact₂ : m₂.act = .reconcile name date') (hfreezes : w₂.world.Freezes name) :
    m₁.time.nanos + (world.threshold.toNat + 1) * world.requeue.nanos ≤ m₂.time.nanos := by
  have hsteady₁ := hsteady.move hm₁Apart hm₁
  have hsteady₂ := hsteady₁.run hmidApart hmid
  have hpaced : v₁.Paced world name generation m₁.time.nanos := by
    unfold Paced
    rw [hzero]
    have hheld := heldUntil_of_commands hact₁ hm₁ hsteady hcommands
    simpa using hheld
  have hpaced₂ := hpaced.run hsteady₁ hmidApart hmid
  obtain ⟨started, hgoing⟩ := hsteady₂.admitted_of_reconcile hact₂ hm₂
  have hdue := hpaced₂.le_of_admitted hgoing
  have htime := (move?_eq_some_iff.1 hm₂).1
  have hthreshold := hfreezes.threshold_le
  rw [hsteady₂.threshold_eq] at hthreshold
  have hmul : ((world.threshold.toNat + 1) * world.requeue.nanos : Int) ≤
      ((w₂.world.failures name).toNat + 1) * world.requeue.nanos :=
    Int.mul_le_mul_of_nonneg_right (by omega) (Int.natCast_nonneg _)
  omega

end

/-! ## Main theorem -/

/-- After a requeue is noted, no report at its generation is reconciled before it is due, unless one
at another generation was reconciled in between. So, where the reports on a record all carry one
generation and nobody else writes its status, two moves that raise its count of failures are at
least a requeue apart, and from a command that leaves the count at zero to the move that gives the
record up for its failures it takes a requeue more than the threshold counts. -/
theorem streak_keeps_pace (name : String) (generation : Option Int64) :
    (∀ {w noted later reported : Watch} {started r c : Instant} {delay : Span} {between : List Move},
      w.going.get? name = some ⟨generation, started, .reconciled (.ok (some delay))⟩ →
      w.move? ⟨r, .note name⟩ = some noted → noted.run? between = some later →
      (∀ before m after v, between = before ++ m :: after → noted.run? before = some v →
        ¬v.ReconcilesOther name generation m) →
      later.move? ⟨c, .report name generation⟩ = some reported → c.nanos < r.nanos + delay.nanos →
      reported.going.get? name = none ∧ reported.going = later.going ∧ reported.world = later.world) ∧
    ∀ {world : World} {resync : Span} {now : Instant} {pre mid : List Move} {m₁ m₂ : Move}
      {w₁ v₁ w₂ v₂ : Watch}, (start world resync now).run? pre = some w₁ → w₁.move? m₁ = some v₁ →
      v₁.run? mid = some w₂ → w₂.move? m₂ = some v₂ →
      (∀ m ∈ pre ++ m₁ :: mid ++ [m₂], m.Apart name generation) →
      (w₁.world.failures name < v₁.world.failures name →
        w₂.world.failures name < v₂.world.failures name →
        m₁.time.nanos + world.requeue.nanos ≤ m₂.time.nanos) ∧
      ∀ {date date' : Timestamp}, m₁.act = .reconcile name date → w₁.world.Commands name date →
        v₁.world.failures name = 0 → m₂.act = .reconcile name date' → w₂.world.Freezes name →
        m₁.time.nanos + (world.threshold.toNat + 1) * world.requeue.nanos ≤ m₂.time.nanos := by
  refine ⟨?_, ?_⟩
  · intro w noted later reported started r c delay between hgoing hnote hrun hother hreport hearly
    have hasked := heldUntil_of_note (w := { w with now := r }) hgoing (move?_eq_some_iff.1 hnote).2
    exact (hasked.run hrun hother).putOff hreport hearly
  · intro world resync now pre mid m₁ m₂ w₁ v₁ w₂ v₂ hpre hm₁ hmid hm₂ hapart
    simp only [List.mem_append, List.mem_cons, List.not_mem_nil, or_false, or_imp, forall_and,
      forall_eq] at hapart
    obtain ⟨⟨hpreApart, hm₁Apart, hmidApart⟩, hm₂Apart⟩ := hapart
    have hsteady := (steady_start world resync now name generation).run hpreApart hpre
    refine ⟨requeue_le_of_raises hsteady hm₁ hm₁Apart hmid hmidApart hm₂ hm₂Apart, ?_⟩
    intro date date' hact₁ hcommands hzero hact₂ hfreezes
    exact requeues_le_of_freezes hsteady hm₁ hm₁Apart hmid hmidApart hm₂ hact₁ hcommands hzero hact₂
      hfreezes

/-- A machine that is woken at 0 s and never answers fails at 60 s and 120 s and is given up at 180 s.
A report at 10 s is put off. -/
theorem streak_keeps_pace_asleep :
    let world := World.start [Server.asleep.withPowerState .on] [] 2 (.ofSeconds 60)
    let w := start world (.ofSeconds 300) ⟨0⟩
    let turn : Nat → List Move := fun s => movesOf "m1" (some 1) ⟨.ofSeconds s, .ofSeconds s, .noon⟩
    let early : Move := ⟨.ofSeconds 10, .report "m1" (some 1)⟩
    let reconcile : Nat → Move := fun s => ⟨.ofSeconds s, .reconcile "m1" .noon⟩
    (∃ noted later reported : Watch, w.run? ((turn 0).take 3) = some noted ∧
      noted.run? ((turn 0).drop 3) = some later ∧ later.move? early = some reported ∧
      reported.going.get? "m1" = none ∧ reported.going = later.going ∧
      reported.world = later.world) ∧
    (∃ w₁ v₁ w₂ v₂ : Watch, w.run? (turn 0 ++ [early] ++ (turn 60).take 1) = some w₁ ∧
      w₁.move? (reconcile 60) = some v₁ ∧ v₁.run? ((turn 60).drop 2 ++ (turn 120).take 1) = some w₂ ∧
      w₂.move? (reconcile 120) = some v₂ ∧
      w₁.world.failures "m1" < v₁.world.failures "m1" ∧
      w₂.world.failures "m1" < v₂.world.failures "m1" ∧
      (reconcile 60).time.nanos + world.requeue.nanos ≤ (reconcile 120).time.nanos) ∧
    ∃ w₁ v₁ w₂ v₂ : Watch, w.run? ((turn 0).take 1) = some w₁ ∧ w₁.move? (reconcile 0) = some v₁ ∧
      v₁.run? ((turn 0).drop 2 ++ [early] ++ turn 60 ++ turn 120 ++ (turn 180).take 1) = some w₂ ∧
      w₂.move? (reconcile 180) = some v₂ ∧
      w₁.world.Commands "m1" .noon ∧ v₁.world.failures "m1" = 0 ∧ w₂.world.Freezes "m1" ∧
      (reconcile 0).time.nanos + (world.threshold.toNat + 1) * world.requeue.nanos ≤
        (reconcile 180).time.nanos := by
  intro world w turn early reconcile
  have hturn : ∀ s, ∀ m ∈ turn s, m.Apart "m1" (some 1) := by
    intro s m hm
    simp only [turn, movesOf, List.mem_cons, List.not_mem_nil, or_false] at hm
    rcases hm with rfl | rfl | rfl | rfl <;> simp [Move.Apart]
  have hall : ∀ n, ∀ m ∈ (turn 0 ++ [early] ++ turn 60 ++ turn 120 ++ turn 180).take n,
      m.Apart "m1" (some 1) := by
    intro n m hm
    have hm := List.mem_of_mem_take hm
    simp only [List.mem_append, List.mem_singleton] at hm
    rcases hm with (((hm | rfl) | hm) | hm) | hm
    · exact hturn 0 m hm
    · exact fun _ => rfl
    · exact hturn 60 m hm
    · exact hturn 120 m hm
    · exact hturn 180 m hm
  have hcount : ∀ {moves u n}, w.run? moves = some u →
      (w.run? moves).map (·.world.failures "m1") = some n → u.world.failures "m1" = n := by
    intro moves u n hu hn
    rw [hu] at hn
    exact Option.some.inj hn
  obtain ⟨hheld, hpace⟩ := streak_keeps_pace "m1" (some 1)
  refine ⟨?_, ?_, ?_⟩
  · have hrun : (w.run? ((turn 0).take 2 ++ ⟨.ofSeconds 0, .note "m1"⟩ ::
        ((turn 0).drop 3 ++ [early]))).isSome := by decide +kernel
    obtain ⟨asked, noted, hasked, hnoted, hrest⟩ := run?_split hrun
    obtain ⟨later, reported, hlater, hreported, -⟩ := run?_split hrest
    have hgoing : (w.run? ((turn 0).take 2)).bind (·.going.get? "m1") =
        some ⟨some 1, ⟨0⟩, .reconciled (.ok (some (.ofSeconds 60)))⟩ := rfl
    rw [hasked] at hgoing
    have hnoted' : w.run? ((turn 0).take 3) = some noted := run?_concat hasked hnoted
    refine ⟨noted, later, reported, hnoted', hlater, hreported,
      hheld hgoing hnoted hlater ?_ hreported (by decide)⟩
    intro before m after v hbetween hbefore
    have hsteady := (steady_start world (.ofSeconds 300) ⟨0⟩ "m1" (some 1)).run
      (fun m hm => hturn 0 m (List.mem_of_mem_take hm)) hnoted'
    refine (hsteady.run (fun m hm => hturn 0 m ?_) hbefore).not_reconcilesOther
    exact List.mem_of_mem_drop (hbetween ▸ List.mem_append_left _ hm)
  · let pre := turn 0 ++ [early] ++ (turn 60).take 1
    let mid := (turn 60).drop 2 ++ (turn 120).take 1
    have hrun : (w.run? (pre ++ reconcile 60 :: (mid ++ [reconcile 120]))).isSome := by decide +kernel
    obtain ⟨w₁, v₁, hw₁, hv₁, hrest⟩ := run?_split hrun
    obtain ⟨w₂, v₂, hw₂, hv₂, -⟩ := run?_split hrest
    have hraise : w₁.world.failures "m1" < v₁.world.failures "m1" := by
      rw [hcount hw₁ (n := 0) (by decide +kernel),
        hcount (run?_concat hw₁ hv₁) (n := 1) (by decide +kernel)]
      decide
    have hraise' : w₂.world.failures "m1" < v₂.world.failures "m1" := by
      have hv := run?_append.2 ⟨w₁, hw₁, run?_cons.2 ⟨v₁, hv₁, hw₂⟩⟩
      rw [hcount hv (n := 1) (by decide +kernel),
        hcount (run?_concat hv hv₂) (n := 2) (by decide +kernel)]
      decide
    exact ⟨w₁, v₁, w₂, v₂, hw₁, hv₁, hw₂, hv₂, hraise, hraise',
      (hpace hw₁ hv₁ hw₂ hv₂ fun m hm => hall 11 m hm).1 hraise hraise'⟩
  · let mid := (turn 0).drop 2 ++ [early] ++ turn 60 ++ turn 120 ++ (turn 180).take 1
    have hrun : (w.run? ((turn 0).take 1 ++ reconcile 0 :: (mid ++ [reconcile 180]))).isSome := by
      decide +kernel
    obtain ⟨w₁, v₁, hw₁, hv₁, hrest⟩ := run?_split hrun
    obtain ⟨w₂, v₂, hw₂, hv₂, -⟩ := run?_split hrest
    have hcommands : w₁.world.Commands "m1" .noon := by
      have h : ∀ u ∈ w.run? ((turn 0).take 1), u.world.Commands "m1" .noon := by decide +kernel
      exact h w₁ hw₁
    have hzero : v₁.world.failures "m1" = 0 :=
      hcount (run?_concat hw₁ hv₁) (by decide +kernel)
    have hfreezes : w₂.world.Freezes "m1" := by
      have hget : (w.run? ((turn 0).take 1 ++ reconcile 0 :: mid)).bind (·.world.store.get "m1") =
          some (((Server.asleep.withPowerState .on).withStatus
            { phase := some .pending, failingSince := some .noon, failureCount := 2 }).withVersion "4") := by
        decide +kernel
      have hw := run?_append.2 ⟨w₁, hw₁, run?_cons.2 ⟨v₁, hv₁, hw₂⟩⟩
      have hthreshold : w₂.world.threshold = 2 :=
        ((steady_start world (.ofSeconds 300) ⟨0⟩ "m1" (some 1)).run
          (fun m hm => hall 14 m hm) hw).threshold_eq
      rw [hw] at hget
      refine (World.freezes_iff hget).2 ⟨by decide, ?_⟩
      rw [hthreshold]
      decide
    exact ⟨w₁, v₁, w₂, v₂, hw₁, hv₁, hw₂, hv₂, hcommands, hzero, hfreezes,
      (hpace hw₁ hv₁ hw₂ hv₂ fun m hm => hall 15 m hm).2 rfl hcommands hzero rfl hfreezes⟩

end Watch

end MetalPool
