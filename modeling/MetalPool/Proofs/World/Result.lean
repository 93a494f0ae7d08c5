import MetalPool.Proofs.World.Run
/-!
# What a reconciliation reports

A reconciliation reports on the record that it leaves behind: whether to come
back to it, that all is done, or why its machine was given up. `Decides.reports`
says so of a round, and `result_agrees_with_record` of what is then found in the
store. Only a store that refuses the status leaves the record as it was.
-/

namespace MetalPool

open ServerStatus (transitionPhase missingAddressMessage actionFailedMessage)

namespace World

/-- The record would be probed, but does not say where. -/
structure Unaddressed (w : World) (server : Server) : Prop where
  not_failed : server.statusOrDefault.phase ≠ some .failed
  below : server.statusOrDefault.failureCount < w.threshold
  address_eq : server.spec.address? = none

/-- The machine is in no transition and was just probed to be not as desired. -/
structure Astray (w : World) (server : Server) (address : String) : Prop extends
    w.Probes server address where
  resting : server.statusOrDefault.Resting
  differs : w.plant.isReachable address ≠ server.spec.desired.isOn

/-- Why the action that the machine needs is not carried out. -/
inductive ActionFails (w : World) (server : Server) : ActionError → Prop where
  | unplanned {address : String} {e : PlanError} (h : w.Astray server address)
    (hplan : server.spec.plan server.spec.desired = .error e) :
    ActionFails w server (.config e.message)
  | refused {address : String} {command : PowerCommand} {e : PowerError} (h : w.Astray server address)
    (hplan : server.spec.plan server.spec.desired = .ok command)
    (he : (w.plant.execute command).1 = .error e) :
    ActionFails w server (.power e)

/-- A reconciliation of the record called `name` ends without an error and leaves the record in one
of the phases. -/
def LeavesIn (w : World) (name : String) (now : Timestamp) (phases : List Phase) : Prop :=
  (w.reconcile name now).1.isOk ∧
    ∃ server, (w.reconcile name now).2.store.get name = some server ∧
      ∃ phase ∈ phases, server.statusOrDefault.phase = some phase

/-- A reconciliation of `server`, the record called `name`, stores that the machine is given up, and
why. -/
def StoresFailure (w : World) (name : String) (now : Timestamp) (server : Server) (reason : String) :
    Prop :=
  w.store.get name = some server ∧
    (w.reconcile name now).2.store =
      w.store.commit name (server.withStatus (server.statusOrDefault.fail reason))

variable {w : World} {name : String} {server : Server} {now : Timestamp} {r : Round}

/-! ## One round -/

/-- What a round reports, in four cases. -/
theorem Decides.reports (hd : w.Decides name server now r) :
    -- Come back: the machine is in transition.
    (r.result = .ok (some w.requeue) ∧
      ∃ p ∈ [Phase.pending, Phase.draining], r.status.phase = some p) ∨
    -- Done: it is in none.
    (r.result = .ok none ∧
      ∃ p ∈ [Phase.active, Phase.offline, Phase.failed], r.status.phase = some p) ∨
    -- There is nothing to probe.
    (r.result = .error (.invalidConfig (noAddressMessage name)) ∧ w.Unaddressed server ∧
      r.status = server.statusOrDefault.fail missingAddressMessage) ∨
    -- The action failed.
    (∃ e, r.result = .error (.powerAction e) ∧ w.ActionFails server e ∧
      r.status = server.statusOrDefault.fail (actionFailedMessage e)) := by
  have htransition : ∀ d, ∃ p ∈ [Phase.pending, Phase.draining], some (transitionPhase d) = some p := by
    intro d
    cases d <;> exact ⟨_, by decide, rfl⟩
  have hseen : ∀ reachable, ∃ p ∈ [Phase.active, Phase.offline, Phase.failed],
      some (Phase.seen reachable) = some p := by
    intro reachable
    cases reachable <;> exact ⟨_, by decide, rfl⟩
  cases hd with
  | failed hf => exact .inr (.inl ⟨rfl, .failed, by decide, hf⟩)
  | frozen => exact .inr (.inl ⟨rfl, .failed, by decide, rfl⟩)
  | unaddressed hf hc ha => exact .inr (.inr (.inl ⟨rfl, ⟨hf, hc, ha⟩, rfl⟩))
  | arrived => exact .inr (.inl ⟨rfl, hseen _⟩)
  | waiting hp ht hr => exact .inl ⟨rfl, ht ▸ htransition _⟩
  | converged => exact .inr (.inl ⟨rfl, hseen _⟩)
  | unplanned hp ht hr hplan =>
    exact .inr (.inr (.inr ⟨_, rfl, .unplanned ⟨hp, ht, hr⟩ hplan, rfl⟩))
  | refused hp ht hr hplan he =>
    exact .inr (.inr (.inr ⟨_, rfl, .refused ⟨hp, ht, hr⟩ hplan he, rfl⟩))
  | commanded => exact .inl ⟨rfl, htransition _⟩

/-- A round asks to come back exactly when it ends in a transition, and then after the time set. -/
theorem Decides.requeued_iff (hd : w.Decides name server now r) (delay : Span) :
    r.result = .ok (some delay) ↔ delay = w.requeue ∧ r.result.isOk ∧
      ∃ p ∈ [Phase.pending, Phase.draining], r.status.phase = some p := by
  rcases hd.reports with ⟨hr, hp⟩ | ⟨hr, p, hp, hst⟩ | ⟨hr, -⟩ | ⟨e, hr, -⟩ <;> rw [hr]
  · refine ⟨fun h => ?_, fun h => by rw [h.1]⟩
    cases h
    exact ⟨rfl, rfl, hp⟩
  · refine ⟨fun h => (nomatch h), ?_⟩
    rintro ⟨-, -, p', hp', hst'⟩
    rw [hst] at hst'
    cases hst'
    simp only [List.mem_cons, List.not_mem_nil, or_false] at hp hp'
    rcases hp' with rfl | rfl <;> simp at hp
  · exact ⟨fun h => (nomatch h), fun h => (nomatch h.2.1)⟩
  · exact ⟨fun h => (nomatch h), fun h => (nomatch h.2.1)⟩

/-- A round is done exactly when it ends, without an error, in no transition. -/
theorem Decides.done_iff (hd : w.Decides name server now r) :
    r.result = .ok none ↔ r.result.isOk ∧
      ∃ p ∈ [Phase.active, Phase.offline, Phase.failed], r.status.phase = some p := by
  rcases hd.reports with ⟨hr, p, hp, hst⟩ | ⟨hr, hp⟩ | ⟨hr, -⟩ | ⟨e, hr, -⟩ <;> rw [hr]
  · refine ⟨fun h => (nomatch h), ?_⟩
    rintro ⟨-, p', hp', hst'⟩
    rw [hst] at hst'
    cases hst'
    simp only [List.mem_cons, List.not_mem_nil, or_false] at hp hp'
    rcases hp with rfl | rfl <;> simp at hp'
  · exact ⟨fun _ => ⟨rfl, hp⟩, fun _ => rfl⟩
  · exact ⟨fun h => (nomatch h), fun h => (nomatch h.1)⟩
  · exact ⟨fun h => (nomatch h), fun h => (nomatch h.1)⟩

/-- An action that fails is what the round reports. -/
theorem Decides.of_actionFails {e : ActionError} (hd : w.Decides name server now r)
    (h : w.ActionFails server e) : r.result = .error (.powerAction e) := by
  cases h with
  | unplanned h hplan =>
    rcases hd.of_resting h.toProbes h.resting with ⟨hr, -⟩ |
      ⟨-, ⟨_, hplan', rfl⟩ | ⟨_, _, hplan', -⟩ | ⟨_, hplan', -⟩⟩
    · exact absurd hr h.differs
    all_goals rw [hplan'] at hplan; cases hplan
    rfl
  | refused h hplan he =>
    rcases hd.of_resting h.toProbes h.resting with ⟨hr, -⟩ |
      ⟨-, ⟨_, hplan', -⟩ | ⟨_, _, hplan', he', rfl⟩ | ⟨_, hplan', he', -⟩⟩
    · exact absurd hr h.differs
    all_goals rw [hplan'] at hplan; cases hplan
    all_goals rw [he'] at he; cases he
    rfl

/-! ## The record afterwards -/

/-- The phase in which a record is left is the one in which its round ends. -/
theorem Concludes.leavesIn_iff (h : w.Concludes name server now r) {phases : List Phase} :
    w.LeavesIn name now phases ↔ r.result.isOk ∧ ∃ p ∈ phases, r.status.phase = some p := by
  obtain ⟨new, hnew, -, hst⟩ := h.found
  unfold LeavesIn
  rw [h.result_eq, ← hst]
  constructor
  · rintro ⟨hok, found, hfound, hphase⟩
    rw [hnew] at hfound
    cases hfound
    exact ⟨hok, hphase⟩
  · rintro ⟨hok, hphase⟩
    exact ⟨hok, new, hnew, hphase⟩

theorem requeued_iff (w : World) (name : String) (now : Timestamp) (delay : Span) :
    (w.reconcile name now).1 = .ok (some delay) ↔
      delay = w.requeue ∧ w.LeavesIn name now [.pending, .draining] := by
  cases hg : w.store.get name with
  | none =>
    unfold LeavesIn
    rw [reconcile_of_none hg]
    refine ⟨fun h => (nomatch h), ?_⟩
    rintro ⟨-, -, server, hget, -⟩
    rw [hg] at hget
    cases hget
  | some server =>
    obtain ⟨r, hd, -, ⟨hr, -⟩ | hc⟩ := reconcile_cases hg now
    · unfold LeavesIn
      rw [hr]
      exact ⟨fun h => (nomatch h), fun h => (nomatch h.2.1)⟩
    · rw [hc.leavesIn_iff, hc.result_eq]
      exact hd.requeued_iff delay

theorem done_iff (w : World) (name : String) (now : Timestamp) :
    (w.reconcile name now).1 = .ok none ↔
      w.store.get name = none ∨ w.LeavesIn name now [.active, .offline, .failed] := by
  cases hg : w.store.get name with
  | none =>
    rw [reconcile_of_none hg]
    exact ⟨fun _ => .inl rfl, fun _ => rfl⟩
  | some server =>
    rw [or_iff_right (Option.some_ne_none server)]
    obtain ⟨r, hd, -, ⟨hr, -⟩ | hc⟩ := reconcile_cases hg now
    · unfold LeavesIn
      rw [hr]
      exact ⟨fun h => (nomatch h), fun h => (nomatch h.1)⟩
    · rw [hc.leavesIn_iff, hc.result_eq]
      exact hd.done_iff

theorem unaddressed_iff (w : World) (name : String) (now : Timestamp) (text : String) :
    (w.reconcile name now).1 = .error (.invalidConfig text) ↔ text = noAddressMessage name ∧
      ∃ server, w.Unaddressed server ∧ w.StoresFailure name now server missingAddressMessage := by
  constructor
  · intro h
    cases hg : w.store.get name with
    | none => rw [reconcile_of_none hg] at h; cases h
    | some server =>
      obtain ⟨r, hd, -, ⟨hr, -⟩ | hc⟩ := reconcile_cases hg now
      · rw [hr] at h; cases h
      · rw [hc.result_eq] at h
        rcases hd.reports with ⟨hr', -⟩ | ⟨hr', -⟩ | ⟨hr', hu, hst⟩ | ⟨e, hr', -⟩ <;> rw [hr'] at h <;>
          cases h
        refine ⟨rfl, server, hu, hg, ?_⟩
        rw [hc.store_eq, hst, if_neg (ServerStatus.fail_ne hu.not_failed _)]
  · rintro ⟨rfl, server, hu, hg, hstored⟩
    obtain ⟨r, hd, -, ⟨-, hspent⟩ | hc⟩ := reconcile_cases hg now
    · exact absurd (hspent.symm.trans hstored) (Store.spend_ne_commit _ _ _ _)
    · rw [hc.result_eq]
      rw [hd.of_unaddressed hu.not_failed hu.below hu.address_eq]

theorem ActionFails.not_failed {e : ActionError} (h : w.ActionFails server e) :
    server.statusOrDefault.phase ≠ some .failed := by
  cases h with
  | unplanned h | refused h => exact h.not_failed

theorem actionFails_iff (w : World) (name : String) (now : Timestamp) (e : ActionError) :
    (w.reconcile name now).1 = .error (.powerAction e) ↔
      ∃ server, w.ActionFails server e ∧
        w.StoresFailure name now server (ControllerError.powerAction e).message := by
  constructor
  · intro h
    cases hg : w.store.get name with
    | none => rw [reconcile_of_none hg] at h; cases h
    | some server =>
      obtain ⟨r, hd, -, ⟨hr, -⟩ | hc⟩ := reconcile_cases hg now
      · rw [hr] at h; cases h
      · rw [hc.result_eq] at h
        rcases hd.reports with ⟨hr', -⟩ | ⟨hr', -⟩ | ⟨hr', -⟩ | ⟨e', hr', hf, hst⟩ <;> rw [hr'] at h <;>
          cases h
        refine ⟨server, hf, hg, ?_⟩
        rw [hc.store_eq, hst, if_neg (ServerStatus.fail_ne hf.not_failed _)]
        rfl
  · rintro ⟨server, hf, hg, hstored⟩
    obtain ⟨r, hd, -, ⟨-, hspent⟩ | hc⟩ := reconcile_cases hg now
    · exact absurd (hspent.symm.trans hstored) (Store.spend_ne_commit _ _ _ _)
    · rw [hc.result_eq]
      exact hd.of_actionFails hf

/-- A refusal of the store leaves every record as it was. -/
theorem refused_get {e : StoreError} (h : (w.reconcile name now).1 = .error (.store e)) (n : String) :
    (w.reconcile name now).2.store.get n = w.store.get n := by
  cases hg : w.store.get name with
  | none => rw [reconcile_of_none hg]
  | some server =>
    obtain ⟨r, hd, -, ⟨-, hspent⟩ | hc⟩ := reconcile_cases hg now
    · rw [hspent, Store.get_spend]
    · rw [hc.result_eq] at h
      rcases hd.reports with ⟨hr', -⟩ | ⟨hr', -⟩ | ⟨hr', -⟩ | ⟨_, hr', -⟩ <;> rw [hr'] at h <;> cases h

/-! ## Main theorem -/

/-- What a reconciliation reports, and what it leaves in the store:
* to come back after the time set, exactly when the record is left in a transition;
* that all is done, exactly when there is no record or it is left in no transition;
* a record without an address, exactly when it stores that the machine is given up for that;
* the failure of an action, exactly when it stores that the machine is given up for it, under the
  text of that failure;
* a refusal of the store, and then every record is as before. -/
theorem result_agrees_with_record (w : World) (name : String) (now : Timestamp) :
    (∀ delay, (w.reconcile name now).1 = .ok (some delay) ↔
      delay = w.requeue ∧ w.LeavesIn name now [.pending, .draining]) ∧
    ((w.reconcile name now).1 = .ok none ↔
      w.store.get name = none ∨ w.LeavesIn name now [.active, .offline, .failed]) ∧
    (∀ text, (w.reconcile name now).1 = .error (.invalidConfig text) ↔ text = noAddressMessage name ∧
      ∃ server, w.Unaddressed server ∧ w.StoresFailure name now server missingAddressMessage) ∧
    (∀ e, (w.reconcile name now).1 = .error (.powerAction e) ↔
      ∃ server, w.ActionFails server e ∧
        w.StoresFailure name now server (ControllerError.powerAction e).message) ∧
    ∀ e, (w.reconcile name now).1 = .error (.store e) →
      ∀ n, (w.reconcile name now).2.store.get n = w.store.get n :=
  ⟨requeued_iff w name now, done_iff w name now, unaddressed_iff w name now, actionFails_iff w name now,
    fun _ h => refused_get h⟩

/-- A machine that is to be woken and whose record has no MAC address is given up for that, once the
store takes the status. -/
theorem result_agrees_with_record_asleep :
    let asleep := Server.asleep.withPowerState .on
    let machine :=
      { asleep with spec := { asleep.spec with control := { wol := some { address := "10.0.0.1" } } } }
    let w := start [machine] [] 3 (.ofSeconds 60)
    let busy := (w.step (.conflictNext "m1")).2
    (busy.reconcile "m1" .noon).1 = .error (.store (.conflict "m1")) ∧
      (busy.reconcile "m1" .noon).2.store.get "m1" = w.store.get "m1" ∧
      (w.reconcile "m1" .noon).1 = .error (.powerAction (.config "WOL MAC address is required")) ∧
      ∃ server, w.ActionFails server (.config "WOL MAC address is required") ∧
        w.StoresFailure "m1" .noon server "Power action failed: WOL MAC address is required" := by
  intro asleep machine w busy
  have hbusy : (busy.reconcile "m1" .noon).1 = .error (.store (.conflict "m1")) := rfl
  have hfails : (w.reconcile "m1" .noon).1 =
      .error (.powerAction (.config "WOL MAC address is required")) := rfl
  refine ⟨hbusy, ?_, hfails, ?_⟩
  · exact (result_agrees_with_record busy "m1" .noon).2.2.2.2 _ hbusy "m1"
  · exact ((result_agrees_with_record w "m1" .noon).2.2.2.1 _).1 hfails

end World

end MetalPool
