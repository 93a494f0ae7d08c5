import Mathlib.Data.List.Induction
import MetalPool.Proofs.World.Command
import MetalPool.Proofs.World.Streak
/-!
# From the first failure to the threshold

A machine that does not arrive where its transition takes it fails once in each
round, until the count of its failures is at the threshold; the next round gives
it up. `Waited` says what its status has become after any number of rounds, and
`streak_reaches_threshold` what each single round of such a run does, whatever
else happens between the rounds.
-/

namespace MetalPool

open ServerStatus (transitionPhase thresholdMessage settled)

/-- When the step reconciles the record called `name`, by the clock. -/
def Step.roundOf? (name : String) : Step → Option Timestamp
  | .reconcile n now => if n = name then some now.onClock else none
  | _ => none

/-- The rounds of the record called `name` in a run. -/
def rounds (name : String) (steps : List Step) : List Timestamp := steps.filterMap (Step.roundOf? name)

/-- What the status `s` of a machine in transition has become after rounds at `times` in which the
machine did not arrive. -/
structure ServerStatus.Waited (threshold : UInt32) (s : ServerStatus) (times : List Timestamp)
    (later : ServerStatus) : Prop where
  phase_eq : later.phase =
    if s.failureCount.toNat + times.length ≤ threshold.toNat then s.phase else some .failed
  count_eq : later.failureCount.toNat = min (s.failureCount.toNat + times.length) threshold.toNat
  since_eq : later.failingSince = s.failingSince.or times.head?

namespace ServerStatus

variable {threshold : UInt32} {s later : ServerStatus} {times : List Timestamp}

theorem waited_nil (h : s.failureCount < threshold) : s.Waited threshold [] s := by
  have hlt := UInt32.lt_iff_toNat_lt.1 h
  refine ⟨?_, ?_, ?_⟩
  · rw [if_pos (by simp; omega)]
  · simp; omega
  · simp

theorem Waited.below (h : s.Waited threshold times later)
    (hk : s.failureCount.toNat + times.length < threshold.toNat) : later.failureCount < threshold := by
  rw [UInt32.lt_iff_toNat_lt, h.count_eq]
  omega

/-- Another failure. -/
theorem Waited.recordFailure (h : s.Waited threshold times later)
    (hk : s.failureCount.toNat + times.length < threshold.toNat) (now : Timestamp) :
    s.Waited threshold (times ++ [now]) (later.recordFailure now) := by
  refine ⟨?_, ?_, ?_⟩
  · have hphase := h.phase_eq
    rw [if_pos (Nat.le_of_lt hk)] at hphase
    rw [if_pos (by rw [List.length_append]; exact hk)]
    exact hphase
  · rw [toNat_recordFailure (h.below hk), h.count_eq, List.length_append, List.length_singleton]
    omega
  · -- The start of the streak is that of the first failure from the second one on.
    have hsince : (later.recordFailure now).failingSince = some (later.failingSince.getD now) := rfl
    rw [hsince, h.since_eq]
    cases s.failingSince <;> cases times <;> rfl

/-- A machine at the threshold is given up. -/
theorem Waited.fail (h : s.Waited threshold times later) (hlt : s.failureCount < threshold)
    (hk : s.failureCount.toNat + times.length = threshold.toNat) (reason : String) (now : Timestamp) :
    s.Waited threshold (times ++ [now]) (later.fail reason) := by
  have hlt' := UInt32.lt_iff_toNat_lt.1 hlt
  refine ⟨?_, ?_, ?_⟩
  · rw [if_neg (by rw [List.length_append, List.length_singleton]; omega)]
    rfl
  · have hcount : (later.fail reason).failureCount = later.failureCount := rfl
    rw [hcount, h.count_eq, List.length_append, List.length_singleton]
    omega
  · have hsince : (later.fail reason).failingSince = later.failingSince := rfl
    rw [hsince, h.since_eq]
    cases times with
    | nil => simp at hk; omega
    | cons => rfl

/-- A machine given up is left alone. -/
theorem Waited.skip (h : s.Waited threshold times later)
    (hk : threshold.toNat < s.failureCount.toNat + times.length) (hlt : s.failureCount < threshold)
    (now : Timestamp) : s.Waited threshold (times ++ [now]) later := by
  have hlt' := UInt32.lt_iff_toNat_lt.1 hlt
  refine ⟨?_, ?_, ?_⟩
  · have hphase := h.phase_eq
    rw [if_neg (Nat.not_le.2 hk)] at hphase
    rw [if_neg (by rw [List.length_append]; omega)]
    exact hphase
  · rw [h.count_eq, List.length_append]
    omega
  · rw [h.since_eq]
    cases times with
    | nil => simp at hk; omega
    | cons => rfl

end ServerStatus

theorem Server.address_eq_of_adapterView {a b : Server} (h : a.adapterView = b.adapterView) :
    a.spec.address? = b.spec.address? :=
  (congrArg (fun s : Server => s.spec.address?) h :)

theorem rounds_append (name : String) (steps rest : List Step) :
    rounds name (steps ++ rest) = rounds name steps ++ rounds name rest :=
  List.filterMap_append ..

theorem rounds_reconcile (name : String) (now : Timestamp) (rest : List Step) :
    rounds name (.reconcile name now :: rest) = now.onClock :: rounds name rest := by
  simp [rounds, Step.roundOf?]

namespace World

variable {w : World} {name address : String} {server old : Server} {d : PowerState} {s : ServerStatus}
  {times : List Timestamp} {now : Timestamp}

/-- If the step reconciles the record called `name`, its status is not refused, and a probe finds the
machine reachable or not, as said. -/
def Sees (name : String) (reachable : Bool) (w : World) (s : Step) : Prop :=
  ∀ now, s = .reconcile name now → w.Accepted name now.onClock ∧
    ∀ address ∈ (w.noted s).probes, w.plant.isReachable address = reachable

theorem sees_of_ok {reachable : Bool} (hok : (w.reconcile name now.onClock).1.isOk)
    (h : ∀ address ∈ (w.noted (.reconcile name now)).probes, w.plant.isReachable address = reachable) :
    Sees name reachable w (.reconcile name now) := by
  rintro now' he
  cases he
  exact ⟨.of_ok hok, h⟩

theorem sees_of_ne {reachable : Bool} {s : Step} (h : ∀ now, s ≠ .reconcile name now) :
    Sees name reachable w s :=
  fun now he => absurd he (h now)

/-! ## One round -/

/-- The round looks for the machine at its address in vain, counts one failure more and is to be
repeated after `delay`. -/
structure CountsFailure (w : World) (name : String) (now : Timestamp) (address : String) (delay : Span)
    (old new : Server) : Prop where
  probes_eq : (w.noted (.reconcile name now)).probes = [address]
  result_eq : (w.reconcile name now.onClock).1 = .ok (some delay)
  phase_eq : new.statusOrDefault.phase = old.statusOrDefault.phase
  count_eq : new.statusOrDefault.failureCount.toNat = old.statusOrDefault.failureCount.toNat + 1

/-- The round gives the machine up without a look at it, and keeps its streak. -/
structure GivesUp (w : World) (name : String) (now : Timestamp) (old new : Server) : Prop where
  probes_eq : (w.noted (.reconcile name now)).probes = []
  result_eq : (w.reconcile name now.onClock).1 = .ok none
  writes_eq : (w.step (.reconcile name now)).2.store.writes = w.store.writes + 1
  phase_eq : new.statusOrDefault.phase = some .failed
  count_eq : new.statusOrDefault.failureCount = w.threshold
  since_eq : new.statusOrDefault.failingSince = old.statusOrDefault.failingSince

/-- The round neither probes nor writes. -/
structure Idles (w : World) (name : String) (now : Timestamp) : Prop where
  probes_eq : (w.noted (.reconcile name now)).probes = []
  result_eq : (w.reconcile name now.onClock).1 = .ok none
  store_eq : (w.step (.reconcile name now)).2.store = w.store

/-- The round finds the machine arrived and stores that, without a streak. -/
structure Arrives (w : World) (name : String) (now : Timestamp) (address : String) (d : PowerState) :
    Prop where
  probes_eq : (w.noted (.reconcile name now)).probes = [address]
  calls_eq : (w.noted (.reconcile name now)).powerCalls = []
  result_eq : (w.reconcile name now.onClock).1 = .ok none
  found : ∃ new, (w.step (.reconcile name now)).2.store.get name = some new ∧
    new.statusOrDefault = settled (Phase.seen d.isOn)

theorem Accepted.noted (h : w.Accepted name now.onClock) (hg : w.store.get name = some server) :
    ∃ r, w.Decides name server now.onClock r ∧ w.Concludes name server now.onClock r ∧
      (w.noted (.reconcile name now)).powerCalls = r.command.toList.map PowerCommand.call ∧
      (w.noted (.reconcile name now)).probes = r.probed.toList := by
  obtain ⟨r, hd, hp, hc⟩ := h.round hg
  have hplant : (w.step (.reconcile name now)).2.plant = (w.carry r).plant := hp
  refine ⟨r, hd, hc, ?_⟩
  unfold World.noted
  rw [hplant]
  exact ⟨carry_powerCalls w r, carry_probes w r⟩

/-- What a round does to a record in transition whose machine did not arrive so far and does not
arrive in it, in three cases. It never issues a command. -/
theorem waited_round (hg : w.store.get name = some old) (ha : old.spec.address? = some address)
    (ht : s.phase = some (transitionPhase d)) (hlt : s.failureCount < w.threshold)
    (h : s.Waited w.threshold times old.statusOrDefault)
    (hsees : Sees name (!d.isOn) w (.reconcile name now)) :
    (w.noted (.reconcile name now)).powerCalls = [] ∧
    ∃ new, (w.step (.reconcile name now)).2.store.get name = some new ∧ new.spec = old.spec ∧
      s.Waited w.threshold (times ++ [now.onClock]) new.statusOrDefault ∧
      ((s.failureCount.toNat + times.length < w.threshold.toNat ∧
          w.CountsFailure name now address w.requeue old new) ∨
        (s.failureCount.toNat + times.length = w.threshold.toNat ∧ w.GivesUp name now old new) ∨
        (w.threshold.toNat < s.failureCount.toNat + times.length ∧ w.Idles name now)) := by
  obtain ⟨haccepted, hfinds⟩ := hsees now rfl
  obtain ⟨r, hd, hc, hcalls, hprobes⟩ := haccepted.noted hg
  have hstore : (w.step (.reconcile name now)).2.store = _ := hc.store_eq
  obtain ⟨new, hnew, hspec, hst⟩ := hc.found
  have hphase := h.phase_eq
  rcases Nat.lt_trichotomy (s.failureCount.toNat + times.length) w.threshold.toNat with hk | hk | hk
  · rw [if_pos (Nat.le_of_lt hk), ht] at hphase
    have hprobing : w.Probes old address :=
      ⟨ServerStatus.not_failed_of_transition hphase, h.below hk, ha⟩
    rcases hd.of_transition hprobing hphase with ⟨hr, rfl⟩ | ⟨-, rfl⟩
    · -- A probe that finds the machine where it should be is not one of this run.
      have hcontrary := hfinds address (by rw [hprobes]; exact List.mem_singleton_self _)
      rw [hr] at hcontrary
      cases d <;> cases hcontrary
    · refine ⟨hcalls, new, hnew, hspec, hst ▸ h.recordFailure hk _, .inl ⟨hk, ?_⟩⟩
      exact
        { probes_eq := hprobes
          result_eq := hc.result_eq
          phase_eq := by rw [hst]; rfl
          count_eq := by rw [hst]; exact ServerStatus.toNat_recordFailure (h.below hk) _ }
  · rw [if_pos (Nat.le_of_eq hk), ht] at hphase
    have hf := ServerStatus.not_failed_of_transition hphase
    have hcount : old.statusOrDefault.failureCount = w.threshold := by
      rw [← UInt32.toNat_inj, h.count_eq]
      omega
    obtain rfl := hd.of_threshold hf (hcount ▸ UInt32.le_refl _)
    rw [if_neg (ServerStatus.fail_ne hf _)] at hstore
    refine ⟨hcalls, new, hnew, hspec, hst ▸ h.fail hlt hk _ _, .inr (.inl ⟨hk, ?_⟩)⟩
    exact
      { probes_eq := hprobes
        result_eq := hc.result_eq
        writes_eq := by rw [hstore]; rfl
        phase_eq := by rw [hst]; rfl
        count_eq := by rw [hst]; exact hcount
        since_eq := by rw [hst]; rfl }
  · rw [if_neg (Nat.not_le.2 hk)] at hphase
    obtain rfl := hd.of_gaveUp hphase
    rw [if_pos rfl] at hstore
    exact ⟨hcalls, new, hnew, hspec, hst ▸ h.skip hk hlt _,
      .inr (.inr ⟨hk, hprobes, hc.result_eq, hstore⟩)⟩

/-! ## Runs -/

theorem after_threshold (w : World) (steps : List Step) : (w.after steps).threshold = w.threshold :=
  congrArg Prod.fst (after_settings w steps)

/-- The record of a machine that does not arrive, after a run. -/
theorem waited_after (hg : w.store.get name = some server)
    (ht : server.statusOrDefault.phase = some (transitionPhase d))
    (hlt : server.statusOrDefault.failureCount < w.threshold) (ha : server.spec.address? = some address)
    {steps : List Step} (hops : ∀ s ∈ steps, s.Operational) (hsees : w.Along (Sees name !d.isOn) steps) :
    ∃ old, (w.after steps).store.get name = some old ∧ old.spec.address? = some address ∧
      server.statusOrDefault.Waited w.threshold (rounds name steps) old.statusOrDefault := by
  induction steps using List.reverseRecOn with
  | nil => exact ⟨server, hg, ha, ServerStatus.waited_nil hlt⟩
  | append_singleton steps s ih =>
    obtain ⟨hbefore, hlast, -⟩ := along_append.1 hsees
    obtain ⟨old, hold, haddress, hwaited⟩ :=
      ih (fun t ht => hops t (List.mem_append_left _ ht)) hbefore
    simp only [rounds_append, after_append, after_cons, after_nil]
    rcases (hops s (by simp)).cases with ⟨n, now, rfl⟩ | hspare
    · by_cases hn : n = name
      · subst hn
        rw [← after_threshold w steps] at hwaited hlt
        obtain ⟨-, new, hnew, hspec, hwaited', -⟩ :=
          waited_round hold haddress ht hlt hwaited hlast
        rw [after_threshold] at hwaited'
        refine ⟨new, hnew, hspec ▸ haddress, ?_⟩
        rw [rounds_reconcile]
        exact hwaited'
      · -- Rounds of other records leave this one alone.
        have hround : rounds name [.reconcile n now] = [] := by simp [rounds, Step.roundOf?, hn]
        rw [hround, List.append_nil]
        exact ⟨old, (reconcile_get_of_ne (Ne.symm hn) now.onClock).trans hold, haddress, hwaited⟩
    · obtain ⟨new, hnew, hview⟩ := Store.status_of_adapterView (step_adapterView hspare) hold
      have hround : rounds name [s] = [] := by
        cases s <;> first | rfl | cases hspare
      rw [hround, List.append_nil]
      refine ⟨new, hnew, (Server.address_eq_of_adapterView hview).trans haddress, ?_⟩
      unfold Server.statusOrDefault at hwaited ⊢
      rw [Server.status_eq_of_adapterView hview]
      exact hwaited

/-- What one round of a run does, in three cases. -/
theorem waited_round_after (hg : w.store.get name = some server)
    (ht : server.statusOrDefault.phase = some (transitionPhase d))
    (hlt : server.statusOrDefault.failureCount < w.threshold) (ha : server.spec.address? = some address)
    {pre post : List Step} (hops : ∀ s ∈ pre ++ .reconcile name now :: post, s.Operational)
    (hsees : w.Along (Sees name !d.isOn) (pre ++ .reconcile name now :: post)) :
    let count := server.statusOrDefault.failureCount.toNat + (rounds name pre).length
    ((w.after pre).noted (.reconcile name now)).powerCalls = [] ∧
    ∃ old new, (w.after pre).store.get name = some old ∧
      ((w.after pre).step (.reconcile name now)).2.store.get name = some new ∧
      server.statusOrDefault.Waited w.threshold (rounds name pre ++ [now.onClock]) new.statusOrDefault ∧
      ((count < w.threshold.toNat ∧ (w.after pre).CountsFailure name now address w.requeue old new) ∨
        (count = w.threshold.toNat ∧ (w.after pre).GivesUp name now old new) ∨
        (w.threshold.toNat < count ∧ (w.after pre).Idles name now)) := by
  obtain ⟨hbefore, hlast, -⟩ := along_append.1 hsees
  obtain ⟨old, hold, haddress, hwaited⟩ :=
    waited_after hg ht hlt ha (fun s hs => hops s (List.mem_append_left _ hs)) hbefore
  have hT := after_threshold w pre
  have hdelay : (w.after pre).requeue = w.requeue := congrArg Prod.snd (after_settings w pre)
  rw [← hT] at hwaited hlt
  obtain ⟨hcalls, new, hnew, -, hwaited', hcases⟩ := waited_round hold haddress ht hlt hwaited hlast
  rw [hT] at hwaited' hcases
  rw [hdelay] at hcases
  exact ⟨hcalls, old, new, hold, hnew, hwaited', hcases⟩

/-- The machine arrives after all. -/
theorem arrives_after (hg : w.store.get name = some server)
    (ht : server.statusOrDefault.phase = some (transitionPhase d))
    (hlt : server.statusOrDefault.failureCount < w.threshold) (ha : server.spec.address? = some address)
    {steps : List Step} (hops : ∀ s ∈ steps, s.Operational) (hsees : w.Along (Sees name !d.isOn) steps)
    (hk : server.statusOrDefault.failureCount.toNat + (rounds name steps).length < w.threshold.toNat)
    (hr : (w.after steps).plant.isReachable address = d.isOn)
    (haccepted : (w.after steps).Accepted name now.onClock) :
    (w.after steps).Arrives name now address d := by
  obtain ⟨old, hold, haddress, hwaited⟩ := waited_after hg ht hlt ha hops hsees
  obtain ⟨r, hd, hc, hcalls, hprobes⟩ := haccepted.noted hold
  have hphase := hwaited.phase_eq
  rw [if_pos (Nat.le_of_lt hk), ht] at hphase
  have hbelow := hwaited.below hk
  rw [← after_threshold w steps] at hbelow
  have hprobing : (w.after steps).Probes old address :=
    ⟨ServerStatus.not_failed_of_transition hphase, hbelow, haddress⟩
  rcases hd.of_transition hprobing hphase with ⟨-, rfl⟩ | ⟨hr', -⟩
  · obtain ⟨new, hnew, -, hst⟩ := hc.found
    exact ⟨hprobes, hcalls, hc.result_eq, new, hnew, hst⟩
  · exact absurd hr hr'

/-! ## Main theorem -/

/-- A record in transition toward `d`, with a streak below the threshold, whose machine is not found
arrived in any round of a run, whatever else happens in it:
* each of the first rounds, up to the threshold, counts one failure, and the streak starts with the
  first of them unless it had a start before;
* the next round gives the machine up, and all later ones do nothing;
* no round of the record issues a command, nor does anything else but the rounds of other records.
A round that finds the machine arrived after all, with the count still below the threshold, ends the
transition. -/
theorem streak_reaches_threshold (w : World) {name address : String} {server : Server} {d : PowerState}
    (hg : w.store.get name = some server)
    (ht : server.statusOrDefault.phase = some (transitionPhase d))
    (hlt : server.statusOrDefault.failureCount < w.threshold) (ha : server.spec.address? = some address)
    {steps : List Step} (hops : ∀ s ∈ steps, s.Operational) (hsees : w.Along (Sees name !d.isOn) steps) :
    let spare := w.threshold.toNat - server.statusOrDefault.failureCount.toNat
    (∀ pre now post, steps = pre ++ .reconcile name now :: post →
      ((w.after pre).noted (.reconcile name now)).powerCalls = [] ∧
      ∃ old new, (w.after pre).store.get name = some old ∧
        ((w.after pre).step (.reconcile name now)).2.store.get name = some new ∧
        ((rounds name pre).length < spare →
          (w.after pre).CountsFailure name now address w.requeue old new ∧
          new.statusOrDefault.failingSince =
            server.statusOrDefault.failingSince.or (rounds name steps).head?) ∧
        ((rounds name pre).length = spare → (w.after pre).GivesUp name now old new) ∧
        (spare < (rounds name pre).length → (w.after pre).Idles name now)) ∧
    (∀ pre s post call e, steps = pre ++ s :: post → call ∈ ((w.after pre).noted s).powerCalls →
      call.target? = some e → ∃ other now, s = .reconcile other now ∧ other ≠ name) ∧
    ∀ now, (rounds name steps).length < spare → (w.after steps).plant.isReachable address = d.isOn →
      (w.after steps).Accepted name now.onClock → (w.after steps).Arrives name now address d := by
  intro spare
  have hlt' := UInt32.lt_iff_toNat_lt.1 hlt
  refine ⟨?_, ?_, ?_⟩
  · rintro pre now post rfl
    obtain ⟨hcalls, old, new, hold, hnew, hwaited, hcases⟩ := waited_round_after hg ht hlt ha hops hsees
    refine ⟨hcalls, old, new, hold, hnew, fun hk => ?_, fun hk => ?_, fun hk => ?_⟩
    · rcases hcases with ⟨-, hcounts⟩ | ⟨hk', -⟩ | ⟨hk', -⟩
      · refine ⟨hcounts, ?_⟩
        rw [hwaited.since_eq, rounds_append, rounds_reconcile]
        cases rounds name pre <;> rfl
      all_goals omega
    · rcases hcases with ⟨hk', -⟩ | ⟨-, hgives⟩ | ⟨hk', -⟩
      · omega
      · exact hgives
      · omega
    · rcases hcases with ⟨hk', -⟩ | ⟨hk', -⟩ | ⟨-, hidles⟩
      · omega
      · omega
      · exact hidles
  · rintro pre s post call e rfl hcall htarget
    obtain ⟨other, now, rfl⟩ := reconcile_of_noted hcall htarget
    refine ⟨other, now, rfl, ?_⟩
    rintro rfl
    obtain ⟨hcalls, -⟩ := waited_round_after hg ht hlt ha hops hsees
    rw [hcalls] at hcall
    cases hcall
  · intro now hk hr haccepted
    exact arrives_after hg ht hlt ha hops hsees (by omega) hr haccepted

/-- A machine that was woken at noon and stays silent, at a threshold of 2: it is given up in the third
round, though it was to be shut down again in between. -/
theorem streak_reaches_threshold_asleep :
    let w := (start [.asleep] [] 2 (.ofSeconds 60)).after
      [.updatePowerState "m1" none .on, .reconcile "m1" .noon]
    let later := Timestamp.noon.addSeconds 60
    let first : List Step :=
      [.reconcile "m1" .noon, .updatePowerState "m1" none .off, .conflictNext "m1",
        .pool (.increaseSize Pool.groupId 1)]
    ∃ old mid new, (w.after first).CountsFailure "m1" later "10.0.0.1" (.ofSeconds 60) old mid ∧
      mid.statusOrDefault.failingSince = some .noon ∧
      (w.after (first ++ [.reconcile "m1" later])).GivesUp "m1" later mid new := by
  intro w later first
  let steps := first ++ [.reconcile "m1" later, .reconcile "m1" later]
  let pending : ServerStatus := { phase := some .pending }
  have hg : w.store.get "m1" =
      some (((Server.asleep.withPowerState .on).withStatus pending).withVersion "3") := by decide +kernel
  have hops : ∀ s ∈ steps, s.Operational := by
    intro s hs
    simp only [steps, first, List.cons_append, List.nil_append, List.mem_cons, List.not_mem_nil, or_false] at hs
    rcases hs with rfl | rfl | rfl | rfl | rfl | rfl <;> trivial
  have hsees : w.Along (Sees "m1" !PowerState.on.isOn) steps :=
    ⟨sees_of_ok (by decide +kernel) (by decide +kernel), sees_of_ne nofun, sees_of_ne nofun,
      sees_of_ne nofun, sees_of_ok (by decide +kernel) (by decide +kernel),
      sees_of_ok (by decide +kernel) (by decide +kernel), trivial⟩
  have hround :=
    (streak_reaches_threshold w (d := .on) hg rfl (by decide +kernel) rfl hops hsees).1
  obtain ⟨-, old, mid, -, hmid, hcounts, -⟩ := hround first later [.reconcile "m1" later] rfl
  obtain ⟨-, mid', new, hmid', -, -, hgives, -⟩ := hround (first ++ [.reconcile "m1" later]) later [] rfl
  have hafter : w.after (first ++ [.reconcile "m1" later]) =
      ((w.after first).step (.reconcile "m1" later)).2 := after_append ..
  rw [hafter, hmid] at hmid'
  obtain rfl := Option.some.inj hmid'
  exact ⟨old, mid, new, (hcounts (by decide +kernel)).1, (hcounts (by decide +kernel)).2, hgives (by decide +kernel)⟩

end World

end MetalPool
