import MetalPool.Proofs.Store.Write
import MetalPool.Reconcile
/-!
# What a reconciliation does

`Decides` sums up the lifecycle: a round with an existing record does one of
nine things, each with the conditions under which it is done. `Persists` says
what becomes of the status the round ends with. `reconcile_of_get` puts the two
together, so that no other module looks at the code of a reconciliation again.
-/

namespace MetalPool

def PowerState.isOn : PowerState → Bool
  | .on => true
  | .off => false

/-- The phase of a machine in no transition, from whether it answers. -/
def Phase.seen (reachable : Bool) : Phase := if reachable then .active else .offline

namespace ServerStatus

/-- The machine is in no transition and not given up. -/
def Resting (s : ServerStatus) : Prop :=
  s.phase = none ∨ s.phase = some .active ∨ s.phase = some .offline

theorem resting_or (s : ServerStatus) :
    s.phase = some .failed ∨ s.Resting ∨ ∃ d, s.phase = some (transitionPhase d) := by
  unfold Resting
  cases hp : s.phase with
  | none => simp
  | some p =>
    cases p
    case pending => exact .inr (.inr ⟨.on, rfl⟩)
    case draining => exact .inr (.inr ⟨.off, rfl⟩)
    all_goals simp

theorem Resting.ne_transition {s : ServerStatus} (h : s.Resting) (d : PowerState) :
    s.phase ≠ some (transitionPhase d) := by
  rcases h with h | h | h <;> rw [h] <;> cases d <;> decide

theorem Resting.not_failed {s : ServerStatus} (h : s.Resting) : s.phase ≠ some .failed := by
  rcases h with h | h | h <;> rw [h] <;> decide

theorem not_failed_of_transition {s : ServerStatus} {d : PowerState}
    (h : s.phase = some (transitionPhase d)) : s.phase ≠ some .failed := by
  rw [h]
  cases d <;> decide

theorem resting_settled (reachable : Bool) : (settled (Phase.seen reachable)).Resting := by
  cases reachable
  · exact .inr (.inr rfl)
  · exact .inr (.inl rfl)

theorem fail_ne {s : ServerStatus} (h : s.phase ≠ some .failed) (reason : String) :
    s.fail reason ≠ s := by
  intro he
  exact h (he ▸ rfl)

theorem observe_transition {s : ServerStatus} {d : PowerState} (h : s.phase = some (transitionPhase d))
    (reachable : Bool) (now : Timestamp) :
    s.observe reachable now =
      if reachable = d.isOn then (.settled, settled (Phase.seen d.isOn))
      else (.waiting, s.recordFailure now) := by
  unfold observe
  rw [h]
  cases d <;> cases reachable <;> rfl

theorem observe_resting {s : ServerStatus} (h : s.Resting) (reachable : Bool) (now : Timestamp) :
    s.observe reachable now = (.observed, { s with phase := some (Phase.seen reachable) }) := by
  obtain ⟨phase, message, failingSince, failureCount⟩ := s
  unfold observe
  rcases h with h | h | h <;> cases h <;> cases reachable <;> rfl

theorem current_seen (s : ServerStatus) (reachable : Bool) (d : PowerState) :
    { s with phase := some (Phase.seen reachable) : ServerStatus }.current = d ↔ reachable = d.isOn := by
  cases reachable <;> cases d <;> simp [current, Phase.seen, PowerState.isOn]

end ServerStatus

open ServerStatus (transitionPhase thresholdMessage missingAddressMessage actionFailedMessage settled)

/-- What one reconciliation of an existing record probes and commands, the
status it ends with, and its result unless that status cannot be written. -/
structure Round where
  probed : Option String := none
  command : Option PowerCommand := none
  status : ServerStatus
  result : Reconciled

theorem Plant.execute_probe (p : Plant) (address : String) (command : PowerCommand) :
    ((p.probe address).2.execute command).1 = (p.execute command).1 := by
  cases command with
  | wake => rfl
  | shutdown => rfl
  | bmcOn | bmcOff =>
    simp only [execute_bmcOn, execute_bmcOff, bmcSwitch, probe, noteBmc]
    split <;> rfl

namespace World

/-- The world after the probe and the command of a round. -/
def carry (w : World) (r : Round) : World :=
  let w := match r.probed with
    | none => w
    | some address => (w.probe address).2
  match r.command with
  | none => w
  | some command => (w.execute command).2

@[simp] theorem carry_store (w : World) (r : Round) : (w.carry r).store = w.store := by
  unfold carry
  cases r.probed <;> cases r.command <;> rfl

/-- A reconciliation of the record gets as far as probing its address. -/
structure Probes (w : World) (server : Server) (address : String) : Prop where
  not_failed : server.statusOrDefault.phase ≠ some .failed
  below : server.statusOrDefault.failureCount < w.threshold
  address_eq : server.spec.address? = some address

/-- What a reconciliation of `server`, the record called `name`, decides on. -/
inductive Decides (w : World) (name : String) (server : Server) (now : Timestamp) : Round → Prop where
  | failed (hf : server.statusOrDefault.phase = some .failed) :
    Decides w name server now { status := server.statusOrDefault, result := .ok none }
  | frozen (hf : server.statusOrDefault.phase ≠ some .failed)
    (hc : w.threshold ≤ server.statusOrDefault.failureCount) :
    Decides w name server now
      { status := server.statusOrDefault.fail (thresholdMessage server.statusOrDefault.failureCount)
        result := .ok none }
  | unaddressed (hf : server.statusOrDefault.phase ≠ some .failed)
    (hc : server.statusOrDefault.failureCount < w.threshold) (ha : server.spec.address? = none) :
    Decides w name server now
      { status := server.statusOrDefault.fail missingAddressMessage
        result := .error (.invalidConfig (noAddressMessage name)) }
  /-- The machine came to where the transition takes it. -/
  | arrived {address : String} {d : PowerState} (hp : w.Probes server address)
    (ht : server.statusOrDefault.phase = some (transitionPhase d))
    (hr : w.plant.isReachable address = d.isOn) :
    Decides w name server now
      { probed := some address, status := settled (Phase.seen d.isOn), result := .ok none }
  | waiting {address : String} {d : PowerState} (hp : w.Probes server address)
    (ht : server.statusOrDefault.phase = some (transitionPhase d))
    (hr : w.plant.isReachable address ≠ d.isOn) :
    Decides w name server now
      { probed := some address
        status := server.statusOrDefault.recordFailure now
        result := .ok (some w.requeue) }
  /-- The machine is as desired. -/
  | converged {address : String} (hp : w.Probes server address) (ht : server.statusOrDefault.Resting)
    (hr : w.plant.isReachable address = server.spec.desired.isOn) :
    Decides w name server now
      { probed := some address
        status := { server.statusOrDefault with phase := some (Phase.seen server.spec.desired.isOn) }
        result := .ok none }
  | unplanned {address : String} {e : PlanError} (hp : w.Probes server address)
    (ht : server.statusOrDefault.Resting) (hr : w.plant.isReachable address ≠ server.spec.desired.isOn)
    (hplan : server.spec.plan server.spec.desired = .error e) :
    Decides w name server now
      { probed := some address
        status := server.statusOrDefault.fail (actionFailedMessage (.config e.message))
        result := .error (.powerAction (.config e.message)) }
  | refused {address : String} {command : PowerCommand} {e : PowerError} (hp : w.Probes server address)
    (ht : server.statusOrDefault.Resting) (hr : w.plant.isReachable address ≠ server.spec.desired.isOn)
    (hplan : server.spec.plan server.spec.desired = .ok command)
    (he : (w.plant.execute command).1 = .error e) :
    Decides w name server now
      { probed := some address
        command := some command
        status := server.statusOrDefault.fail (actionFailedMessage (.power e))
        result := .error (.powerAction (.power e)) }
  | commanded {address : String} {command : PowerCommand} (hp : w.Probes server address)
    (ht : server.statusOrDefault.Resting) (hr : w.plant.isReachable address ≠ server.spec.desired.isOn)
    (hplan : server.spec.plan server.spec.desired = .ok command)
    (he : (w.plant.execute command).1 = .ok ()) :
    Decides w name server now
      { probed := some address
        command := some command
        status :=
          { server.statusOrDefault with
            phase := some (transitionPhase server.spec.desired), message := "" }
        result := .ok (some w.requeue) }

/-! ## The round of a record

One lemma for each state of a record: a machine given up, a streak at the threshold, no address, a
machine in transition, and one in none. -/

section

variable {w : World} {name : String} {server : Server} {now : Timestamp} {r : Round} {address : String}

theorem Decides.of_gaveUp (hd : w.Decides name server now r)
    (hf : server.statusOrDefault.phase = some .failed) :
    r = { status := server.statusOrDefault, result := .ok none } := by
  cases hd with
  | failed => rfl
  | frozen h | unaddressed h => exact absurd hf h
  | arrived hp | waiting hp | converged hp | unplanned hp | refused hp | commanded hp =>
    exact absurd hf hp.not_failed

theorem Decides.of_threshold (hd : w.Decides name server now r)
    (hf : server.statusOrDefault.phase ≠ some .failed)
    (hc : w.threshold ≤ server.statusOrDefault.failureCount) :
    r = { status := server.statusOrDefault.fail (thresholdMessage server.statusOrDefault.failureCount)
          result := .ok none } := by
  cases hd with
  | failed h => exact absurd h hf
  | frozen => rfl
  | unaddressed _ hlt => exact absurd hlt (UInt32.not_lt.2 hc)
  | arrived hp | waiting hp | converged hp | unplanned hp | refused hp | commanded hp =>
    exact absurd hp.below (UInt32.not_lt.2 hc)

theorem Decides.of_unaddressed (hd : w.Decides name server now r)
    (hf : server.statusOrDefault.phase ≠ some .failed)
    (hlt : server.statusOrDefault.failureCount < w.threshold) (ha : server.spec.address? = none) :
    r = { status := server.statusOrDefault.fail missingAddressMessage
          result := .error (.invalidConfig (noAddressMessage name)) } := by
  cases hd with
  | failed h => exact absurd h hf
  | frozen _ hc => exact absurd hlt (UInt32.not_lt.2 hc)
  | unaddressed => rfl
  | arrived hp | waiting hp | converged hp | unplanned hp | refused hp | commanded hp =>
    rw [hp.address_eq] at ha
    cases ha

/-- A machine in transition arrived, or the round waits for it. -/
theorem Decides.of_transition {d : PowerState} (hd : w.Decides name server now r)
    (hp : w.Probes server address) (ht : server.statusOrDefault.phase = some (transitionPhase d)) :
    (w.plant.isReachable address = d.isOn ∧
      r = { probed := some address, status := settled (Phase.seen d.isOn), result := .ok none }) ∨
    (w.plant.isReachable address ≠ d.isOn ∧
      r = { probed := some address
            status := server.statusOrDefault.recordFailure now
            result := .ok (some w.requeue) }) := by
  have hsame : ∀ {a e}, w.Probes server a →
      server.statusOrDefault.phase = some (transitionPhase e) → a = address ∧ e = d := by
    intro a e ha he
    rw [ht, Option.some.injEq] at he
    refine ⟨Option.some.inj (ha.address_eq.symm.trans hp.address_eq), ?_⟩
    cases e <;> cases d <;> first | rfl | cases he
  cases hd with
  | failed hf => exact absurd hf hp.not_failed
  | frozen _ hc => exact absurd hp.below (UInt32.not_lt.2 hc)
  | unaddressed _ _ ha => rw [hp.address_eq] at ha; cases ha
  | arrived hp' ht' hr => obtain ⟨rfl, rfl⟩ := hsame hp' ht'; exact .inl ⟨hr, rfl⟩
  | waiting hp' ht' hr => obtain ⟨rfl, rfl⟩ := hsame hp' ht'; exact .inr ⟨hr, rfl⟩
  | converged _ hrest | unplanned _ hrest | refused _ hrest | commanded _ hrest =>
    exact absurd ht (hrest.ne_transition d)

/-- A machine in no transition is as desired, or an action is tried. -/
theorem Decides.of_resting (hd : w.Decides name server now r) (hp : w.Probes server address)
    (ht : server.statusOrDefault.Resting) :
    (w.plant.isReachable address = server.spec.desired.isOn ∧
      r = { probed := some address
            status := { server.statusOrDefault with
              phase := some (Phase.seen server.spec.desired.isOn) }
            result := .ok none }) ∨
    (w.plant.isReachable address ≠ server.spec.desired.isOn ∧
      ((∃ e, server.spec.plan server.spec.desired = .error e ∧
        r = { probed := some address
              status := server.statusOrDefault.fail (actionFailedMessage (.config e.message))
              result := .error (.powerAction (.config e.message)) }) ∨
      (∃ command e, server.spec.plan server.spec.desired = .ok command ∧
        (w.plant.execute command).1 = .error e ∧
        r = { probed := some address
              command := some command
              status := server.statusOrDefault.fail (actionFailedMessage (.power e))
              result := .error (.powerAction (.power e)) }) ∨
      ∃ command, server.spec.plan server.spec.desired = .ok command ∧
        (w.plant.execute command).1 = .ok () ∧
        r = { probed := some address
              command := some command
              status := { server.statusOrDefault with
                phase := some (transitionPhase server.spec.desired), message := "" }
              result := .ok (some w.requeue) })) := by
  have hsame : ∀ {a}, w.Probes server a → a = address := fun ha =>
    Option.some.inj (ha.address_eq.symm.trans hp.address_eq)
  cases hd with
  | failed hf => exact absurd hf hp.not_failed
  | frozen _ hc => exact absurd hp.below (UInt32.not_lt.2 hc)
  | unaddressed _ _ ha => rw [hp.address_eq] at ha; cases ha
  | arrived _ ht' | waiting _ ht' => exact absurd ht' (ht.ne_transition _)
  | converged hp' _ hr => obtain rfl := hsame hp'; exact .inl ⟨hr, rfl⟩
  | unplanned hp' _ hr hplan => obtain rfl := hsame hp'; exact .inr ⟨hr, .inl ⟨_, hplan, rfl⟩⟩
  | refused hp' _ hr hplan he =>
    obtain rfl := hsame hp'
    exact .inr ⟨hr, .inr (.inl ⟨_, _, hplan, he, rfl⟩)⟩
  | commanded hp' _ hr hplan he =>
    obtain rfl := hsame hp'
    exact .inr ⟨hr, .inr (.inr ⟨_, hplan, he, rfl⟩)⟩

end

/-- What becomes of the status of a round: the result of the reconciliation, and the store. -/
inductive Persists (w : World) (name : String) (server : Server) (r : Round) :
    Reconciled → Store → Prop where
  | unchanged (hs : r.status = server.statusOrDefault) : Persists w name server r r.result w.store
  | conflict (hs : r.status ≠ server.statusOrDefault) (hc : name ∈ w.store.conflicts) :
    Persists w name server r (.error (.store (.conflict name))) (w.store.spend name)
  | stored (hs : r.status ≠ server.statusOrDefault) (hc : name ∉ w.store.conflicts) :
    Persists w name server r r.result (w.store.commit name (server.withStatus r.status))

variable {w : World} {name : String} {server : Server}

theorem conclude_of_get (hg : w.store.get name = some server) (status : ServerStatus)
    (result : Reconciled) :
    w.conclude name server.version? server.statusOrDefault status result =
      if status = server.statusOrDefault then (result, w)
      else if name ∈ w.store.conflicts then
        (.error (.store (.conflict name)), { w with store := w.store.spend name })
      else (result, { w with store := w.store.commit name (server.withStatus status) }) := by
  unfold conclude persist
  by_cases hs : status = server.statusOrDefault
  · rw [if_pos hs, if_pos hs]
  · rw [if_neg hs, if_neg hs, Store.updateStatus_of_get hg]
    by_cases hc : name ∈ w.store.conflicts
    · rw [if_pos hc, if_pos hc]; rfl
    · rw [if_neg hc, if_neg hc]; rfl

/-- A round that probes the machine ends with its status. -/
theorem reconcileMachine_of {address : String} (hp : w.Probes server address) (now : Timestamp) :
    ∃ r, w.Decides name server now r ∧ w.reconcileMachine name server address now =
      (w.carry r).conclude name server.version? server.statusOrDefault r.status r.result := by
  unfold reconcileMachine
  simp only [show (w.probe address).1 = w.plant.isReachable address from rfl]
  rcases server.statusOrDefault.resting_or with hf | ht | ⟨d, ht⟩
  · exact absurd hf hp.not_failed
  · rw [ServerStatus.observe_resting ht]
    simp only [ServerStatus.current_seen]
    by_cases hr : w.plant.isReachable address = server.spec.desired.isOn
    · refine ⟨_, .converged hp ht hr, ?_⟩
      rw [if_pos hr, hr]
      rfl
    · rw [if_neg hr]
      unfold act
      cases hplan : server.spec.plan server.spec.desired with
      | error e => exact ⟨_, .unplanned hp ht hr hplan, rfl⟩
      | ok command =>
        have he : ((w.probe address).2.execute command).1 =
            (w.plant.execute command).1.mapError .power :=
          congrArg (Except.mapError ActionError.power) (Plant.execute_probe w.plant address command)
        cases hc : (w.plant.execute command).1 with
        | error e =>
          refine ⟨_, .refused hp ht hr hplan hc, ?_⟩
          simp only [he, hc]
          rfl
        | ok u =>
          refine ⟨_, .commanded hp ht hr hplan hc, ?_⟩
          simp only [he, hc]
          rfl
  · rw [ServerStatus.observe_transition ht]
    by_cases hr : w.plant.isReachable address = d.isOn
    · exact ⟨_, .arrived hp ht hr, by rw [if_pos hr]; rfl⟩
    · exact ⟨_, .waiting hp ht hr, by rw [if_neg hr]; rfl⟩

/-- A reconciliation of an existing record carries out a round and writes the status it ends with. -/
theorem reconcileRecord_of_get (hg : w.store.get name = some server) (now : Timestamp) :
    ∃ r, w.Decides name server now r ∧ w.reconcileRecord name now =
      (w.carry r).conclude name server.version? server.statusOrDefault r.status r.result := by
  unfold reconcileRecord
  simp only [hg]
  unfold ServerStatus.precheck
  by_cases hf : server.statusOrDefault.phase = some .failed
  · refine ⟨_, .failed hf, ?_⟩
    rw [if_pos hf, conclude_of_get (by simpa using hg), if_pos rfl]
    rfl
  · rw [if_neg hf]
    by_cases hc : w.threshold ≤ server.statusOrDefault.failureCount
    · rw [if_pos hc]
      exact ⟨_, .frozen hf hc, rfl⟩
    · rw [if_neg hc]
      have hlt := UInt32.not_le.1 hc
      cases ha : server.spec.address? with
      | none => exact ⟨_, .unaddressed hf hlt ha, rfl⟩
      | some address => exact reconcileMachine_of ⟨hf, hlt, ha⟩ now

theorem conclude_persists (hg : w.store.get name = some server) (r : Round) {v : World}
    (hv : v.store = w.store) {result : Reconciled} {after : World}
    (h : v.conclude name server.version? server.statusOrDefault r.status r.result = (result, after)) :
    w.Persists name server r result after.store ∧ after.plant = v.plant := by
  rw [conclude_of_get (hv ▸ hg), hv] at h
  split at h
  · rename_i hs
    cases h
    exact ⟨hv ▸ .unchanged hs, rfl⟩
  · rename_i hs
    split at h
    · rename_i hc
      cases h
      exact ⟨.conflict hs hc, rfl⟩
    · rename_i hc
      cases h
      exact ⟨.stored hs hc, rfl⟩

/-- Nothing but the count of reconciliations changes for a name without a record. -/
theorem reconcile_of_none (hg : w.store.get name = none) (now : Timestamp) :
    w.reconcile name now =
      (.ok none, { w with metrics := w.metrics.recordReconciliation "done" }) := by
  unfold reconcile reconcileRecord
  simp only [hg]
  rfl

/-- What a reconciliation of an existing record does to the store and the machines. -/
theorem reconcile_of_get (hg : w.store.get name = some server) (now : Timestamp) :
    ∃ r, w.Decides name server now r ∧
      w.Persists name server r (w.reconcile name now).1 (w.reconcile name now).2.store ∧
      (w.reconcile name now).2.plant = (w.carry r).plant := by
  obtain ⟨r, hd, he⟩ := reconcileRecord_of_get hg now
  obtain ⟨hs, hp⟩ := conclude_persists hg r (carry_store w r) (he.symm.trans (Prod.eta _).symm)
  exact ⟨r, hd, hs, hp⟩

/-! ## Settings -/

/-- The two settings of a controller, which nothing changes. -/
def settings (w : World) : UInt32 × Span := (w.threshold, w.requeue)

@[simp] theorem carry_settings (w : World) (r : Round) : (w.carry r).settings = w.settings := by
  unfold carry
  cases r.probed <;> cases r.command <;> rfl

theorem conclude_settings (w : World) (name : String) (version : Option String)
    (observed status : ServerStatus) (result : Reconciled) :
    (w.conclude name version observed status result).2.settings = w.settings := by
  have hp : (w.persist name version observed status).2.settings = w.settings := by
    unfold persist
    split <;> rfl
  unfold conclude
  generalize w.persist name version observed status = written at hp ⊢
  obtain ⟨answer, after⟩ := written
  cases answer <;> exact hp

theorem reconcile_settings (w : World) (name : String) (now : Timestamp) :
    (w.reconcile name now).2.settings = w.settings := by
  cases hg : w.store.get name with
  | none => rw [reconcile_of_none hg]; rfl
  | some server =>
    obtain ⟨r, -, he⟩ := reconcileRecord_of_get hg now
    have h := conclude_settings (w.carry r) name server.version? server.statusOrDefault r.status r.result
    rw [← he] at h
    exact h.trans (carry_settings w r)

theorem reconcile_threshold (w : World) (name : String) (now : Timestamp) :
    (w.reconcile name now).2.threshold = w.threshold :=
  congrArg Prod.fst (reconcile_settings w name now)

end World

end MetalPool
