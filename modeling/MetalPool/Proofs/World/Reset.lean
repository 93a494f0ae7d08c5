import Mathlib.Data.List.Induction
import MetalPool.Proofs.World.Failures
import MetalPool.Proofs.World.Phase
/-!
# Streaks after a reset

An operator takes back a machine that was given up by writing another phase and
a count of zero. The time since when it failed stays as it is, and a first
failure sets it only if it is not set. So a later streak counts from its own
first failure if that time was cleared, by the operator or by the end of a
transition in between, and from the old time otherwise
(`streak_start_after_reset`, `reset_keeps_old_start`).
-/

namespace MetalPool

open ServerStatus (transitionPhase settled thresholdMessage)

/-- The status after a reset to `phase`: no failure is counted any more, the rest stays. -/
def ServerStatus.reset (s : ServerStatus) (phase : Option Phase) : ServerStatus :=
  { s with phase, failureCount := 0 }

namespace World

/-- The streak that the record called `name` is in after `pre`, a round at `now` and `mid` began with
that round: no failure was counted before it, and some ever since. -/
structure BeginsStreak (w : World) (name : String) (pre : List Step) (now : Timestamp)
    (mid : List Step) : Prop where
  before : (w.after pre).failures name = 0
  since : ∀ part, part <+: mid → 0 < (w.after (pre ++ .reconcile name now :: part)).failures name

/-- A transition of the machine ended in the run. -/
def HasSettled (w : World) (name : String) (steps : List Step) : Prop :=
  ∃ pre now post, steps = pre ++ .reconcile name now :: post ∧ (w.after pre).Settles name now

variable {w : World} {name : String} {old new server : Server} {now : Timestamp} {r : Round} {s : Step}
  {steps pre mid : List Step}

/-! ## One step -/

/-- What a round makes of the streak, in three cases. -/
theorem Decides.streak (hd : w.Decides name old now r) :
    -- It goes on as it was, or there is none.
    ((∀ d, old.phase = some (transitionPhase d) → r.status.phase ≠ some (Phase.seen d.isOn)) ∧
      r.status.failureCount = old.statusOrDefault.failureCount ∧
      r.status.failingSince = old.statusOrDefault.failingSince) ∨
    -- It is over with the transition.
    (∃ d, old.phase = some (transitionPhase d) ∧ r.status = settled (Phase.seen d.isOn)) ∨
    -- There is one more failure.
    ((∀ d, r.status.phase ≠ some (Phase.seen d)) ∧ 0 < r.status.failureCount ∧
      r.status.failingSince = some (old.statusOrDefault.failingSince.getD now)) := by
  have hfailed : ∀ reachable, some Phase.failed ≠ some (Phase.seen reachable) := by decide
  cases hd with
  | failed hf => exact .inl ⟨fun d _ => by rw [hf]; exact hfailed _, rfl, rfl⟩
  | frozen | unaddressed | unplanned | refused => exact .inl ⟨fun d _ => hfailed _, rfl, rfl⟩
  | converged _ ht | commanded _ ht =>
    exact .inl ⟨fun d hold => absurd hold (ht.ne_transition d), rfl, rfl⟩
  | @arrived _ d _ ht => exact .inr (.inl ⟨d, ht, rfl⟩)
  | @waiting _ d hp ht =>
    refine .inr (.inr ⟨fun reachable => ?_, ?_, rfl⟩)
    · have hphase : (old.statusOrDefault.recordFailure now).phase = some (transitionPhase d) := ht
      rw [hphase]
      cases d <;> cases reachable <;> decide
    · rw [UInt32.lt_iff_toNat_lt, ServerStatus.toNat_recordFailure hp.below]
      exact Nat.succ_pos _

theorem settles_iff (hg : w.store.get name = some old)
    (hg' : (w.step (.reconcile name now)).2.store.get name = some new) :
    w.Settles name now ↔
      ∃ d, old.phase = some (transitionPhase d) ∧ new.phase = some (Phase.seen d.isOn) := by
  constructor
  · rintro ⟨old', new', ho, hn, h⟩
    rw [hg] at ho
    rw [hg'] at hn
    cases ho
    cases hn
    rcases h with h | h
    · exact ⟨.on, h⟩
    · exact ⟨.off, h⟩
  · rintro ⟨d, h⟩
    refine ⟨old, new, hg, hg', ?_⟩
    cases d
    · exact .inl h
    · exact .inr h

/-- What a reconciliation of a record makes of its streak. -/
theorem reconcile_streak (hg : w.store.get name = some old) (now : Timestamp) :
    ∃ new, (w.step (.reconcile name now)).2.store.get name = some new ∧
      ((¬w.Settles name now ∧
          new.statusOrDefault.failureCount = old.statusOrDefault.failureCount ∧
          new.statusOrDefault.failingSince = old.statusOrDefault.failingSince) ∨
        (w.Settles name now ∧
          new.statusOrDefault.failureCount = 0 ∧ new.statusOrDefault.failingSince = none) ∨
        (¬w.Settles name now ∧
          0 < new.statusOrDefault.failureCount ∧
          new.statusOrDefault.failingSince =
            some (old.statusOrDefault.failingSince.getD now.onClock))) := by
  obtain ⟨r, hd, -, ⟨-, hspent⟩ | hc⟩ := reconcile_cases hg now.onClock
  · -- The store refused the status, and the record is as it was.
    have hg' : (w.step (.reconcile name now)).2.store.get name = some old := by
      rw [show (w.step (.reconcile name now)).2.store = _ from hspent, Store.get_spend, hg]
    refine ⟨old, hg', .inl ⟨?_, rfl, rfl⟩⟩
    rw [settles_iff hg hg']
    rintro ⟨d, ho, hn⟩
    rw [ho] at hn
    cases d <;> cases hn
  · obtain ⟨new, hg', -, hst⟩ := hc.found
    have hphase : new.phase = r.status.phase := congrArg ServerStatus.phase hst
    refine ⟨new, hg', ?_⟩
    rw [settles_iff hg hg', hphase, hst]
    rcases hd.streak with ⟨hn, hsame⟩ | ⟨d, ho, hr⟩ | ⟨hn, hmore⟩
    · refine .inl ⟨?_, hsame⟩
      rintro ⟨d, ho, hseen⟩
      exact hn d ho hseen
    · rw [hr]
      exact .inr (.inl ⟨⟨d, ho, rfl⟩, rfl, rfl⟩)
    · refine .inr (.inr ⟨?_, hmore⟩)
      rintro ⟨d, -, hseen⟩
      exact hn d.isOn hseen

/-- What a step makes of the streak of a record, in three cases. -/
theorem step_streak (hs : s.Operational) (hg : w.store.get name = some old) :
    ∃ new, (w.step s).2.store.get name = some new ∧
      (((∀ now, s = .reconcile name now → ¬w.Settles name now) ∧
          new.statusOrDefault.failureCount = old.statusOrDefault.failureCount ∧
          new.statusOrDefault.failingSince = old.statusOrDefault.failingSince) ∨
        (∃ now, s = .reconcile name now ∧ w.Settles name now ∧
          new.statusOrDefault.failureCount = 0 ∧ new.statusOrDefault.failingSince = none) ∨
        ∃ now, s = .reconcile name now ∧ ¬w.Settles name now ∧
          0 < new.statusOrDefault.failureCount ∧
          new.statusOrDefault.failingSince =
            some (old.statusOrDefault.failingSince.getD now.onClock)) := by
  rcases hs.cases with ⟨n, now, rfl⟩ | hspare
  · by_cases hn : name = n
    · subst hn
      obtain ⟨new, hg', hstreak⟩ := reconcile_streak hg now
      refine ⟨new, hg', ?_⟩
      rcases hstreak with ⟨hnot, hsame⟩ | hcleared | hmore
      · refine .inl ⟨?_, hsame⟩
        intro now' he
        cases he
        exact hnot
      · exact .inr (.inl ⟨now, rfl, hcleared⟩)
      · exact .inr (.inr ⟨now, rfl, hmore⟩)
    · refine ⟨old, (reconcile_get_of_ne hn now.onClock).trans hg, .inl ⟨?_, rfl, rfl⟩⟩
      intro now' he
      cases he
      exact absurd rfl hn
  · obtain ⟨new, hg', hview⟩ := Store.status_of_adapterView (step_adapterView hspare) hg
    refine ⟨new, hg', .inl ⟨?_, ?_⟩⟩
    · rintro now rfl
      cases hspare
    · unfold Server.statusOrDefault
      rw [Server.status_eq_of_adapterView hview]
      exact ⟨rfl, rfl⟩

/-! ## Runs -/

theorem not_hasSettled_nil : ¬w.HasSettled name [] := by
  rintro ⟨pre, now, post, h, -⟩
  simp at h

theorem hasSettled_concat :
    w.HasSettled name (steps ++ [s]) ↔
      w.HasSettled name steps ∨ ∃ now, s = .reconcile name now ∧ (w.after steps).Settles name now := by
  constructor
  · rintro ⟨pre, now, post, h, hsettles⟩
    rcases List.eq_nil_or_concat post with rfl | ⟨post, last, rfl⟩
    · obtain ⟨rfl, he⟩ := List.append_inj' h rfl
      cases he
      exact .inr ⟨now, rfl, hsettles⟩
    · rw [List.concat_eq_append, ← List.cons_append, ← List.append_assoc] at h
      obtain ⟨rfl, -⟩ := List.append_inj' h rfl
      exact .inl ⟨pre, now, post, rfl, hsettles⟩
  · rintro (⟨pre, now, post, rfl, hsettles⟩ | ⟨now, rfl, hsettles⟩)
    · exact ⟨pre, now, post ++ [s], by simp, hsettles⟩
    · exact ⟨steps, now, [], rfl, hsettles⟩

theorem beginsStreak_nil (hzero : (w.after pre).failures name = 0)
    (hpos : 0 < (w.after (pre ++ [.reconcile name now])).failures name) :
    w.BeginsStreak name pre now [] := by
  refine ⟨hzero, fun part hpart => ?_⟩
  rw [List.prefix_nil.1 hpart]
  exact hpos

theorem BeginsStreak.concat (h : w.BeginsStreak name pre now mid)
    (hpos : 0 < (w.after (pre ++ .reconcile name now :: (mid ++ [s]))).failures name) :
    w.BeginsStreak name pre now (mid ++ [s]) := by
  refine ⟨h.before, fun part hpart => ?_⟩
  rcases List.prefix_concat_iff.1 hpart with rfl | hpart
  · exact hpos
  · exact h.since part hpart

/-- No streak begins within another, where failures are counted. -/
theorem BeginsStreak.not_within {part mid' : List Step} {now' : Timestamp}
    (h : w.BeginsStreak name pre now (part ++ .reconcile name now' :: mid')) :
    ¬w.BeginsStreak name (pre ++ .reconcile name now :: part) now' mid' := by
  intro h'
  have hpos := h.since part (List.prefix_append ..)
  rw [h'.before] at hpos
  exact absurd hpos (UInt32.lt_irrefl 0)

/-- A streak has one beginning. -/
theorem BeginsStreak.unique {pre' mid' : List Step} {now' : Timestamp}
    (h : w.BeginsStreak name pre now mid) (h' : w.BeginsStreak name pre' now' mid')
    (he : pre ++ .reconcile name now :: mid = pre' ++ .reconcile name now' :: mid') :
    pre = pre' ∧ now = now' := by
  rcases List.append_eq_append_iff.1 he with ⟨part, rfl, hrest⟩ | ⟨part, rfl, hrest⟩
  · cases part with
    | nil =>
      cases hrest
      exact ⟨(List.append_nil pre).symm, rfl⟩
    | cons first part =>
      cases hrest
      exact absurd h' h.not_within
  · cases part with
    | nil =>
      cases hrest
      exact ⟨List.append_nil pre', rfl⟩
    | cons first part =>
      cases hrest
      exact absurd h h'.not_within

/-- What a run has made of the streak of a record that had no failures at its start, but the time
`noted` since when it fails. -/
inductive StreakAfter (w : World) (name : String) (noted : Option Timestamp) (steps : List Step)
    (later : ServerStatus) : Prop where
  | none (hcount : later.failureCount = 0)
    (hsince : ¬w.HasSettled name steps → later.failingSince = noted)
    (hsettled : w.HasSettled name steps → later.failingSince = Option.none)
  | some {pre mid : List Step} {now : Timestamp} (hpos : 0 < later.failureCount)
    (hsteps : steps = pre ++ .reconcile name now :: mid) (hbegins : w.BeginsStreak name pre now mid)
    (hsince : ¬w.HasSettled name pre → later.failingSince = Option.some (noted.getD now.onClock))
    (hsettled : w.HasSettled name pre → later.failingSince = Option.some now.onClock)

theorem streak_after (hg : w.store.get name = some server)
    (hzero : server.statusOrDefault.failureCount = 0) (hops : ∀ s ∈ steps, s.Operational) :
    ∃ later, (w.after steps).store.get name = some later ∧
      w.StreakAfter name server.statusOrDefault.failingSince steps later.statusOrDefault := by
  induction steps using List.reverseRecOn with
  | nil => exact ⟨server, hg, .none hzero (fun _ => rfl) (fun h => absurd h not_hasSettled_nil)⟩
  | append_singleton steps s ih =>
    obtain ⟨old, hold, hstreak⟩ := ih fun t ht => hops t (List.mem_append_left _ ht)
    obtain ⟨new, hnew, hstep⟩ := step_streak (hops s (by simp)) hold
    have hafter : (w.after (steps ++ [s])).store.get name = some new := by
      rw [after_append]
      exact hnew
    refine ⟨new, hafter, ?_⟩
    rcases hstep with ⟨hnot, hcount, hsince⟩ | ⟨now, rfl, hsettles, hcount, hsince⟩ |
      ⟨now, rfl, hnot, hpos, hsince⟩
    · have hsame : w.HasSettled name (steps ++ [s]) ↔ w.HasSettled name steps := by
        rw [hasSettled_concat, or_iff_left]
        rintro ⟨now, rfl, hsettles⟩
        exact hnot now rfl hsettles
      cases hstreak with
      | none hcount' hsince' hsettled' =>
        rw [← hsame] at hsince' hsettled'
        exact .none (hcount.trans hcount') (fun h => hsince.trans (hsince' h))
          (fun h => hsince.trans (hsettled' h))
      | @some pre mid now hpos hsteps hbegins hsince' hsettled' =>
        have hpos' : 0 < new.statusOrDefault.failureCount := hcount ▸ hpos
        have hlonger : steps ++ [s] = pre ++ .reconcile name now :: (mid ++ [s]) := by simp [hsteps]
        subst hsteps
        refine .some hpos' hlonger (hbegins.concat ?_)
          (fun h => hsince.trans (hsince' h)) (fun h => hsince.trans (hsettled' h))
        rw [failures_of_get (by simpa using hafter)]
        exact hpos'
    · have hsettled : w.HasSettled name (steps ++ [.reconcile name now]) :=
        hasSettled_concat.2 (.inr ⟨now, rfl, hsettles⟩)
      exact .none hcount (fun h => absurd hsettled h) (fun _ => hsince)
    · cases hstreak with
      | none hcount' hsince' hsettled' =>
        -- The streak begins here.
        have hbegins : w.BeginsStreak name steps now [] := by
          refine beginsStreak_nil ?_ ?_
          · rw [failures_of_get hold, hcount']
          · rw [failures_of_get hafter]
            exact hpos
        exact .some hpos rfl hbegins (fun h => by rw [hsince, hsince' h])
          (fun h => by rw [hsince, hsettled' h]; rfl)
      | @some pre mid now' hpos' hsteps hbegins hsince' hsettled' =>
        have hlonger : steps ++ [.reconcile name now] =
            pre ++ .reconcile name now' :: (mid ++ [.reconcile name now]) := by simp [hsteps]
        subst hsteps
        refine .some hpos hlonger (hbegins.concat ?_)
          (fun h => by rw [hsince, hsince' h]; rfl) (fun h => by rw [hsince, hsettled' h]; rfl)
        rw [failures_of_get (by simpa using hafter)]
        exact hpos

/-! ## Main theorem -/

/-- The status `s` of a record is reset to some phase and a count of zero, and then anything happens but
writes of its status from outside. Whenever failures are counted again, they are those of a streak that
began with some round of the run, and the record says that it fails
* since the first failure of that streak, if a transition of the machine ended between the reset and the
  streak, or if no time was set when the record was reset;
* otherwise since the time that was set then. -/
theorem streak_start_after_reset (w : World) {name : String} {version : Option String} (s : ServerStatus)
    {phase : Option Phase} (hok : (w.store.updateStatus name version (s.reset phase)).1.isOk)
    {steps : List Step} (hops : ∀ s ∈ steps, s.Operational) :
    let reset := (w.step (.updateStatus name version (s.reset phase))).2
    ∃ later, (reset.after steps).store.get name = some later ∧
      (0 < later.statusOrDefault.failureCount →
        ∃ pre now mid, steps = pre ++ .reconcile name now :: mid ∧ reset.BeginsStreak name pre now mid ∧
          (reset.HasSettled name pre → later.statusOrDefault.failingSince = some now.onClock) ∧
          (¬reset.HasSettled name pre →
            later.statusOrDefault.failingSince = some (s.failingSince.getD now.onClock))) := by
  intro reset
  obtain ⟨server, hg, -, hstore⟩ := Store.write_ok hok
  have hreset : reset.store.get name =
      some ((server.withStatus (s.reset phase)).withVersion w.store.nextVersion) := by
    rw [show reset.store = _ from hstore, Store.get_commit, if_pos rfl]
  obtain ⟨later, hlater, hstreak⟩ := streak_after hreset rfl hops
  refine ⟨later, hlater, fun hpos => ?_⟩
  cases hstreak with
  | none hcount => exact absurd hpos (by rw [hcount]; exact UInt32.lt_irrefl 0)
  | some _ hsteps hbegins hsince hsettled => exact ⟨_, _, _, hsteps, hbegins, hsettled, hsince⟩

/-- A machine that was given up at its first failure, at noon, is reset and woken, and answers; when it
is to go off again and does not, it fails since then. -/
theorem streak_start_after_reset_asleep :
    let w := (start [Server.asleep.withPowerState .on] [] 1 (.ofSeconds 60)).after
      (List.replicate 3 (.reconcile "m1" .noon))
    let frozen : ServerStatus :=
      { phase := some .failed, message := thresholdMessage 1, failingSince := some .noon, failureCount := 1 }
    let reset := (w.step (.updateStatus "m1" none (frozen.reset none))).2
    let pre : List Step :=
      [.reconcile "m1" .noon, .setReachable "10.0.0.1" true, .reconcile "m1" .noon,
        .updatePowerState "m1" none .off, .reconcile "m1" .noon]
    let later := Timestamp.noon.addSeconds 3600
    (∃ server, w.store.get "m1" = some server ∧ server.statusOrDefault = frozen) ∧
      reset.BeginsStreak "m1" pre later [] ∧ reset.HasSettled "m1" pre ∧
      ∃ server, (reset.after (pre ++ [.reconcile "m1" later])).store.get "m1" = some server ∧
        server.statusOrDefault.failingSince = some later := by
  intro w frozen reset pre later
  have hops : ∀ s ∈ pre ++ [.reconcile "m1" later], s.Operational := by
    intro s hs
    simp only [pre, List.cons_append, List.nil_append, List.mem_cons, List.not_mem_nil, or_false] at hs
    rcases hs with rfl | rfl | rfl | rfl | rfl | rfl <;> trivial
  have hok : (w.store.updateStatus "m1" none (frozen.reset none)).1.isOk := by decide +kernel
  have hfrozen : w.store.get "m1" =
      some (((Server.asleep.withPowerState .on).withStatus frozen).withVersion "4") := by decide +kernel
  have hbegins : reset.BeginsStreak "m1" pre later [] :=
    beginsStreak_nil (by decide +kernel) (by decide +kernel)
  have hsettled : reset.HasSettled "m1" pre := by
    refine ⟨pre.take 2, .noon, pre.drop 3, rfl, ?_⟩
    rw [settles_iff (Option.some_get (by decide +kernel)).symm
      (Option.some_get (by decide +kernel)).symm]
    exact ⟨.on, by decide +kernel, by decide +kernel⟩
  refine ⟨⟨_, hfrozen, rfl⟩, hbegins, hsettled, ?_⟩
  obtain ⟨server, hserver, hstreak⟩ := streak_start_after_reset w frozen hok hops
  have hpos : 0 < server.statusOrDefault.failureCount := by
    rw [← failures_of_get hserver]
    decide +kernel
  obtain ⟨pre', now', mid', hsteps, hbegins', hsince, -⟩ := hstreak hpos
  obtain ⟨rfl, rfl⟩ := hbegins.unique hbegins' hsteps
  exact ⟨server, hserver, (hsince hsettled).trans (by decide)⟩

/-- The time is not set anew where the machine fails right after the reset: the streak of a machine
that was given up at noon, was reset and failed again an hour later is said to go on since noon. -/
theorem reset_keeps_old_start :
    let w := (start [Server.asleep.withPowerState .on] [] 1 (.ofSeconds 60)).after
      (List.replicate 3 (.reconcile "m1" .noon))
    let frozen : ServerStatus :=
      { phase := some .failed, message := thresholdMessage 1, failingSince := some .noon, failureCount := 1 }
    let reset := (w.step (.updateStatus "m1" none (frozen.reset none))).2
    let later := Timestamp.noon.addSeconds 3600
    (∃ server, w.store.get "m1" = some server ∧ server.statusOrDefault = frozen) ∧
      reset.BeginsStreak "m1" [.reconcile "m1" later] later [] ∧ Timestamp.noon ≠ later ∧
      ∃ server, (reset.after [.reconcile "m1" later, .reconcile "m1" later]).store.get "m1" = some server ∧
        server.statusOrDefault.failureCount = 1 ∧ server.statusOrDefault.failingSince = some .noon := by
  intro w frozen reset later
  have hfrozen : w.store.get "m1" =
      some (((Server.asleep.withPowerState .on).withStatus frozen).withVersion "4") := by decide +kernel
  refine ⟨⟨_, hfrozen, rfl⟩, beginsStreak_nil (by decide +kernel) (by decide +kernel), by decide, ?_⟩
  let failing : ServerStatus :=
    { phase := some .pending, failingSince := some .noon, failureCount := 1 }
  have hfailing : (reset.after [.reconcile "m1" later, .reconcile "m1" later]).store.get "m1" =
      some (((Server.asleep.withPowerState .on).withStatus failing).withVersion "7") := by decide +kernel
  exact ⟨_, hfailing, rfl, rfl⟩

end World

end MetalPool
