import MetalPool.Proofs.Reconcile.Effect
/-!
# The counters account for a run

Three records are kept of what a controller does: the results of its
reconciliations, the calls noted by the backends, and the counters. A step adds
to all three alike (`step_accounts`), so at the end of a run the counters say
how many results there are of each kind, and how many calls of each kind were
made and refused (`metrics_account_for_run`).
-/

namespace MetalPool

/-! ## What is counted -/

/-- Both are failures of one kind, whatever they say. -/
def ControllerError.sameKind : ControllerError → ControllerError → Bool
  | .kube _, .kube _ | .store _, .store _ | .invalidConfig _, .invalidConfig _
  | .powerAction _, .powerAction _ | .provider _, .provider _ | .metrics _, .metrics _
  | .io _, .io _ | .watch _, .watch _ => true
  | _, _ => false

theorem ControllerError.label_eq_iff (e e' : ControllerError) :
    e.label = e'.label ↔ e.sameKind e' = true := by
  cases e <;> cases e' <;> simp [label, sameKind]

theorem World.resultLabel_requeued (r : Reconciled) :
    resultLabel r = "requeued" ↔ (r matches .ok (some _)) = true := by
  rcases r with e | _ | delay
  · cases e <;> simp [resultLabel, ControllerError.label]
  · simp [resultLabel]
  · simp [resultLabel]

theorem World.resultLabel_done (r : Reconciled) :
    resultLabel r = "done" ↔ (r matches .ok none) = true := by
  rcases r with e | _ | delay
  · cases e <;> simp [resultLabel, ControllerError.label]
  · simp [resultLabel]
  · simp [resultLabel]

/-- The reconciliation failed, with a failure of the kind of `e`. -/
def Reconciled.failedAs (e : ControllerError) : Reconciled → Bool
  | .error e' => e'.sameKind e
  | .ok _ => false

theorem World.resultLabel_failed (e : ControllerError) (r : Reconciled) :
    resultLabel r = e.label ↔ Reconciled.failedAs e r = true := by
  rcases r with e' | _ | delay
  · exact e'.label_eq_iff e
  · cases e <;> simp [resultLabel, ControllerError.label, Reconciled.failedAs]
  · cases e <;> simp [resultLabel, ControllerError.label, Reconciled.failedAs]

/-- The kind under which a call is counted; one that only asks is not. -/
def PowerCall.label? : PowerCall → Option String
  | .wake _ => some "wake"
  | .shutdown _ => some "shutdown"
  | .bmc ⟨.powerOn, _⟩ => some "bmc_on"
  | .bmc ⟨.powerOff, _⟩ => some "bmc_off"
  | .bmc ⟨.status, _⟩ => none

theorem PowerCommand.label_call (c : PowerCommand) : c.call.label? = some c.label := by
  cases c <;> rfl

/-- Why the backend of the call refuses it, if it does. -/
def Plant.failure? (p : Plant) : PowerCall → Option String
  | .wake _ => p.wakeFailure
  | .shutdown _ => p.shutdownFailure
  | .bmc _ => p.bmcFailure

theorem Plant.execute_isOk (p : Plant) (c : PowerCommand) :
    (p.execute c).1.isOk = (p.failure? c.call).isNone := by
  cases c with
  | wake =>
    simp only [execute_wake, wake, PowerCommand.call, failure?]
    cases p.wakeFailure <;> rfl
  | shutdown =>
    simp only [execute_shutdown, shutdown, PowerCommand.call, failure?]
    cases p.shutdownFailure <;> rfl
  | bmcOn | bmcOff =>
    simp only [execute_bmcOn, execute_bmcOff, bmcSwitch, noteBmc, PowerCommand.call, failure?]
    cases p.bmcFailure <;> rfl

/-- Nobody counts anything from outside. -/
def Step.SparesCounters : Step → Prop
  | .recordReconciliation _ | .recordAction .. => False
  | _ => True

def Outcome.reconciled? : Outcome → Option Reconciled
  | .reconciled result => some result
  | _ => none

/-! ## Counters -/

namespace Metrics

/-- Reconciliations counted under the label. -/
def counted (m : Metrics) (label : String) : Nat := (m.reconciliations.get? label).getD 0

/-- Reconciliations counted under any label. -/
def total (m : Metrics) : Nat := m.reconciliations.sumOf id

/-- Power actions counted under the kind. -/
def tally (m : Metrics) (kind : String) : ActionTally := (m.actions.get? kind).getD {}

theorem counted_recordReconciliation (m : Metrics) (result label : String) :
    (m.recordReconciliation result).counted label =
      m.counted label + if result = label then 1 else 0 := by
  unfold counted recordReconciliation
  rw [SortedMap.get?_insert]
  by_cases h : result = label
  · simp [h]
  · simp [h, Ne.symm h]

theorem total_recordReconciliation (m : Metrics) (result : String) :
    (m.recordReconciliation result).total = m.total + 1 := by
  have hsum := m.reconciliations.sumOf_insert id result ((m.reconciliations.get? result).getD 0 + 1)
  have hold : (m.reconciliations.get? result).elim 0 id = (m.reconciliations.get? result).getD 0 := by
    cases m.reconciliations.get? result <;> rfl
  rw [hold, id_eq] at hsum
  unfold total recordReconciliation
  dsimp only
  omega

/-- One action more is counted under its kind. -/
theorem tally_recordAction (m : Metrics) (label kind : String) (success : Bool) :
    (m.recordAction label success).tally kind =
      { successes := (m.tally kind).successes + if label = kind ∧ success then 1 else 0
        errors := (m.tally kind).errors + if label = kind ∧ ¬success then 1 else 0 } := by
  unfold tally recordAction
  rw [SortedMap.get?_insert]
  by_cases h : label = kind
  · cases success <;> simp [h]
  · simp [h, Ne.symm h]

end Metrics

namespace World

/-! ## Runs -/

/-- The results of the reconciliations of a run. -/
def results (w : World) (steps : List Step) : List Reconciled :=
  (w.run steps).filterMap fun report => report.outcome.reconciled?

/-- The calls made to backends in a run. -/
def issued (w : World) (steps : List Step) : List PowerCall :=
  (w.run steps).flatMap fun report => report.calls.powerCalls

/-- The calls noted whose backends are set to fail. No call changes that, so these are the ones that
failed (`Plant.execute_isOk`). -/
def refusals (p : Plant) : List PowerCall := p.powerCalls.filter fun call => (p.failure? call).isSome

/-- The calls of a run that failed. -/
def refused (w : World) (steps : List Step) : List PowerCall :=
  (w.run steps).flatMap fun report => refusals report.calls

/-- What was added from `w` to `later` to the counters and to the calls noted is what the results,
the calls made and the calls refused come to. -/
structure Accounts (w later : World) (results : List Reconciled) (issued refused : List PowerCall) :
    Prop where
  total_eq : later.metrics.total = w.metrics.total + results.length
  counted_eq : ∀ label, later.metrics.counted label =
    w.metrics.counted label + results.countP fun r => resultLabel r = label
  calls_perm : later.plant.powerCalls.Perm (w.plant.powerCalls ++ issued)
  actions_eq : ∀ kind,
    (later.metrics.tally kind).successes + (later.metrics.tally kind).errors =
      (w.metrics.tally kind).successes + (w.metrics.tally kind).errors +
        issued.countP fun call => call.label? = some kind
  errors_eq : ∀ kind, (later.metrics.tally kind).errors =
    (w.metrics.tally kind).errors + refused.countP fun call => call.label? = some kind

variable {w later : World} {name : String} {server : Server} {now : Timestamp}

theorem Accounts.refl (w : World) : w.Accounts w [] [] [] where
  total_eq := rfl
  counted_eq _ := rfl
  calls_perm := by rw [List.append_nil]
  actions_eq _ := rfl
  errors_eq _ := rfl

theorem Accounts.trans {v : World} {results results' : List Reconciled}
    {issued issued' refused refused' : List PowerCall} (h : w.Accounts v results issued refused)
    (h' : v.Accounts later results' issued' refused') :
    w.Accounts later (results ++ results') (issued ++ issued') (refused ++ refused') where
  total_eq := by rw [h'.total_eq, h.total_eq, List.length_append, Nat.add_assoc]
  counted_eq label := by rw [h'.counted_eq, h.counted_eq, List.countP_append, Nat.add_assoc]
  calls_perm := by
    rw [← List.append_assoc]
    exact h'.calls_perm.trans (h.calls_perm.append_right _)
  actions_eq kind := by rw [h'.actions_eq, h.actions_eq, List.countP_append, Nat.add_assoc]
  errors_eq kind := by rw [h'.errors_eq, h.errors_eq, List.countP_append, Nat.add_assoc]

/-- A step that leaves the counters alone and makes no call but such as only ask. -/
theorem Accounts.of_same {issued : List PowerCall} (hm : later.metrics.total = w.metrics.total)
    (hc : later.metrics.counted = w.metrics.counted) (ht : later.metrics.tally = w.metrics.tally)
    (hp : later.plant.powerCalls.Perm (w.plant.powerCalls ++ issued))
    (hi : ∀ call ∈ issued, call.label? = none) {refused : List PowerCall} (hr : refused ⊆ issued) :
    w.Accounts later [] issued refused where
  total_eq := hm
  counted_eq label := by rw [hc]; rfl
  calls_perm := hp
  actions_eq kind := by
    rw [ht, List.countP_eq_zero.2 fun call h => by simp [hi call h]]
    rfl
  errors_eq kind := by
    rw [ht, List.countP_eq_zero.2 fun call h => by simp [hi call (hr h)]]
    rfl

/-- A call is counted under its kind, if it has one. -/
theorem tally_call (m : Metrics) (call : PowerCall) (accepted : Bool) (kind : String) :
    ((call.label?.map fun label => (label, accepted)).elim m fun a => m.recordAction a.1 a.2).tally kind =
      { successes := (m.tally kind).successes + if call.label? = some kind ∧ accepted then 1 else 0
        errors := (m.tally kind).errors + if call.label? = some kind ∧ ¬accepted then 1 else 0 } := by
  cases call.label? with
  | none => simp
  | some label => simp [Metrics.tally_recordAction]

/-- What the effect counts is its call, if it has one, as refused or not. -/
def CountsCall (p : Plant) (e : Effect) : Prop :=
  e.action = e.call.bind fun call => call.label?.map fun label => (label, (p.failure? call).isNone)

/-- What a reconciliation counts is what it reports and the call that it makes. -/
theorem Undergoes.accounts {e : Effect} (h : w.Undergoes later name e) (haction : CountsCall w.plant e) :
    w.Accounts later [e.result] e.call.toList
      (e.call.toList.filter fun call => (w.plant.failure? call).isSome) where
  total_eq := by
    rw [h.metrics_eq, Effect.count, Metrics.total_recordReconciliation]
    cases e.action <;> rfl
  counted_eq label := by
    rw [h.metrics_eq, Effect.count, Metrics.counted_recordReconciliation, List.countP_singleton]
    cases e.action <;> simp [Metrics.recordAction, Metrics.counted]
  calls_perm := h.calls_perm
  actions_eq kind := by
    rw [h.metrics_eq, Effect.count, haction]
    cases e.call with
    | none => rfl
    | some call =>
      have ht := tally_call w.metrics call (w.plant.failure? call).isNone kind
      refine (congrArg (fun t : ActionTally => t.successes + t.errors) ht).trans ?_
      by_cases hk : call.label? = some kind <;> cases (w.plant.failure? call) <;> simp [hk] <;> omega
  errors_eq kind := by
    rw [h.metrics_eq, Effect.count, haction]
    cases e.call with
    | none => rfl
    | some call =>
      have ht := tally_call w.metrics call (w.plant.failure? call).isNone kind
      refine (congrArg ActionTally.errors ht).trans ?_
      by_cases hk : call.label? = some kind <;> cases hf : (w.plant.failure? call) <;> simp [hk, hf]

theorem effectOf_countsCall (w : World) (name : String) (server : Server) (r : Round) :
    CountsCall w.plant (w.effectOf name server r) := by
  unfold CountsCall effectOf actionOf
  cases r.command with
  | none => rfl
  | some c =>
    dsimp only [Option.map_some, Option.bind_some]
    rw [c.label_call, Plant.execute_isOk]
    rfl

theorem failure?_of_terms {v : World} (h : v.terms = w.terms) : v.plant.failure? = w.plant.failure? := by
  funext call
  cases call with
  | wake => exact congrArg Terms.wakeFailure h
  | shutdown => exact congrArg Terms.shutdownFailure h
  | bmc => exact congrArg Terms.bmcFailure h

/-- What a reconciliation does, and the calls that are then noted. -/
theorem exists_undergoes (w : World) (name : String) (now : Timestamp) :
    ∃ e, (w.reconcile name now).1 = e.result ∧ w.Undergoes (w.reconcile name now).2 name e ∧
      CountsCall w.plant e ∧
      ((w.reconcile name now).2.plant.callsSince w.plant).powerCalls = e.call.toList := by
  cases hg : w.store.get name with
  | none =>
    obtain ⟨hresult, hundergoes⟩ := undergoes_of_none hg now
    exact ⟨_, hresult, hundergoes, rfl, reconcile_calls_of_none hg now⟩
  | some server =>
    obtain ⟨r, hd, -, hcalls, -⟩ := reconcile_round hg now
    obtain ⟨hresult, hundergoes⟩ := undergoes_of_decides hg hd
    refine ⟨_, hresult, hundergoes, w.effectOf_countsCall name server r, hcalls.trans ?_⟩
    cases h : r.command <;> simp [effectOf, h]

theorem reconcile_accounts (w : World) (name : String) (now : Timestamp) :
    let calls := (w.reconcile name now).2.plant.callsSince w.plant
    w.Accounts (w.reconcile name now).2 [(w.reconcile name now).1] calls.powerCalls (refusals calls) := by
  intro calls
  obtain ⟨e, hresult, hundergoes, haction, hcalls⟩ := w.exists_undergoes name now
  have hfailure : calls.failure? = w.plant.failure? := failure?_of_terms hundergoes.terms_eq
  unfold refusals
  rw [hfailure, hcalls, hresult]
  exact hundergoes.accounts haction

/-- A reconciliation that issues no command counts no power action. -/
theorem actions_of_no_command {r : Round} (hg : w.store.get name = some server)
    (hd : w.Decides name server now r) (hc : r.command = none) :
    (w.reconcile name now).2.metrics.actions = w.metrics.actions := by
  have hnone : (w.effectOf name server r).action = none := by simp [effectOf, actionOf, hc]
  rw [(undergoes_of_decides hg hd).2.metrics_eq, Effect.count, hnone]
  rfl

theorem actions_of_unplanned {e : PlanError} (hg : w.store.get name = some server)
    (hplan : server.spec.plan server.spec.desired = .error e) :
    (w.reconcile name now).2.metrics.actions = w.metrics.actions := by
  obtain ⟨r, hd, -⟩ := reconcileRecord_of_get hg now
  refine actions_of_no_command hg hd (Option.eq_none_iff_forall_ne_some.2 fun command hc => ?_)
  obtain ⟨address, hdue⟩ := (hd.command_iff hg command).1 hc
  rw [hdue.plan_eq] at hplan
  cases hplan

theorem actions_of_misconfigured {text : String}
    (h : (w.reconcile name now).1 = .error (.powerAction (.config text)) ∨
      (w.reconcile name now).1 = .error (.invalidConfig text)) :
    (w.reconcile name now).2.metrics.actions = w.metrics.actions := by
  cases hg : w.store.get name with
  | none => rw [reconcile_of_none hg]; rfl
  | some server =>
    obtain ⟨r, hd, -, ⟨hr, -⟩ | hc⟩ := reconcile_cases hg now
    · rw [hr] at h
      rcases h with h | h <;> cases h
    · rw [hc.result_eq] at h
      refine actions_of_no_command hg hd ?_
      cases hd with
      | refused | commanded => rcases h with h | h <;> cases h
      | _ => rfl

/-- A command that is issued changes the status, whether it fails or not. -/
theorem Decides.status_ne {r : Round} {command : PowerCommand} (hd : w.Decides name server now r)
    (hc : r.command = some command) : r.status ≠ server.statusOrDefault := by
  cases hd with
  | refused _ ht => exact ServerStatus.fail_ne ht.not_failed _
  | commanded _ ht =>
    intro h
    exact ht.ne_transition _ (congrArg ServerStatus.phase h).symm
  | _ => cases hc

/-- A reconciliation that makes its call and is then refused by the store is counted twice over. -/
theorem metrics_of_contested {call : PowerCall}
    (hcall : call ∈ ((w.reconcile name now).2.plant.callsSince w.plant).powerCalls)
    (hc : name ∈ w.store.conflicts) :
    (w.reconcile name now).1 = .error (.store (.conflict name)) ∧
      ∃ kind, call.label? = some kind ∧ (w.reconcile name now).2.metrics =
        (w.metrics.recordAction kind (w.plant.failure? call).isNone).recordReconciliation "store" := by
  cases hg : w.store.get name with
  | none => rw [reconcile_calls_of_none hg] at hcall; cases hcall
  | some server =>
    obtain ⟨r, hd, -, hcalls, -⟩ := reconcile_round hg now
    rw [hcalls, List.mem_map] at hcall
    obtain ⟨command, hm, rfl⟩ := hcall
    have hcommand : r.command = some command := Option.mem_toList.1 hm
    have hresult : (w.effectOf name server r).result = .error (.store (.conflict name)) := by
      simp [effectOf, hd.status_ne hcommand, hc]
    have haction : (w.effectOf name server r).action =
        some (command.label, (w.plant.failure? command.call).isNone) := by
      simp [effectOf, actionOf, hcommand, Plant.execute_isOk]
    obtain ⟨he, hundergoes⟩ := undergoes_of_decides hg hd
    refine ⟨he.trans hresult, command.label, command.label_call, ?_⟩
    rw [hundergoes.metrics_eq, Effect.count, haction, hresult]
    rfl

/-! ## Any step -/

/-- A step that notes no call and leaves the counters alone. -/
theorem Accounts.of_idle (hm : later.metrics.total = w.metrics.total)
    (hc : later.metrics.counted = w.metrics.counted) (ht : later.metrics.tally = w.metrics.tally)
    (hwakes : later.plant.wakes = w.plant.wakes) (hshutdowns : later.plant.shutdowns = w.plant.shutdowns)
    (hbmc : later.plant.bmcCalls = w.plant.bmcCalls) :
    w.Accounts later [] (later.plant.callsSince w.plant).powerCalls
      (refusals (later.plant.callsSince w.plant)) := by
  unfold refusals
  rw [powerCalls_same hwakes hshutdowns hbmc]
  refine .of_same hm hc ht ?_ (fun call hcall => absurd hcall List.not_mem_nil) (List.Subset.refl _)
  unfold Plant.powerCalls
  rw [hwakes, hshutdowns, hbmc, List.append_nil]

theorem step_accounts {s : Step} (h : s.SparesCounters) :
    w.Accounts (w.step s).2 (w.step s).1.reconciled?.toList (w.noted s).powerCalls
      (refusals (w.noted s)) := by
  cases s with
  | recordReconciliation | recordAction => cases h
  | reconcile name now => exact w.reconcile_accounts name now.onClock
  | failWith backend detail => cases backend <;> exact .of_idle rfl rfl rfl rfl rfl rfl
  | bmcStatus address =>
    have hcalls : (w.step (.bmcStatus address)).2.plant.powerCalls.Perm
        (w.plant.powerCalls ++ (w.noted (.bmcStatus address)).powerCalls) := by
      rw [noted_bmcStatus]
      exact powerCalls_note w.plant (.bmc ⟨.status, address⟩)
    have hlabel : ∀ call ∈ (w.noted (.bmcStatus address)).powerCalls, call.label? = none := by
      rw [noted_bmcStatus]
      exact fun call hcall => List.mem_singleton.1 hcall ▸ rfl
    refine Accounts.of_same ?_ ?_ ?_ hcalls hlabel List.filter_sublist.subset <;> rfl
  | _ => exact .of_idle rfl rfl rfl rfl rfl rfl

/-! ## Runs -/

theorem run_accounts {steps : List Step} (h : ∀ s ∈ steps, s.SparesCounters) :
    w.Accounts (w.after steps) (w.results steps) (w.issued steps) (w.refused steps) := by
  induction steps generalizing w with
  | nil => exact .refl w
  | cons s rest ih =>
    obtain ⟨hs, hrest⟩ := List.forall_mem_cons.1 h
    have hresults : w.results (s :: rest) =
        (w.step s).1.reconciled?.toList ++ (w.step s).2.results rest := by
      cases ho : (w.step s).1.reconciled? <;> simp [results, run, ho]
    rw [hresults]
    exact (step_accounts hs).trans (ih hrest)

/-- Each reconciliation of a run has a result. -/
theorem length_results (w : World) (steps : List Step) :
    (w.results steps).length = steps.countP (· matches .reconcile ..) := by
  induction steps generalizing w with
  | nil => rfl
  | cons s rest ih =>
    rw [List.countP_cons, ← ih (w.step s).2]
    cases s <;> rfl

/-! ## Main theorem -/

/-- In a run from fresh counters, to which nobody adds from outside:
* as many reconciliations are counted as there are, those under `requeued` are the ones that are to
  be looked at again, those under `done` the ones that are not, and those under the label of a
  failure the ones with a failure of that kind;
* for each kind of power action as many successes and errors are counted as the backends note calls,
  and as many errors as calls were refused.

A reconciliation that cannot plan its command counts no power action, and one whose command is issued
and whose status is refused by the store counts the power action and a failure of the store. -/
theorem metrics_account_for_run (w : World) (hfresh : w.metrics = {}) (steps : List Step)
    (hsteps : ∀ s ∈ steps, s.SparesCounters) :
    let m := (w.after steps).metrics
    m.total = steps.countP (· matches .reconcile ..) ∧
    m.counted "requeued" = (w.results steps).countP (· matches .ok (some _)) ∧
    m.counted "done" = (w.results steps).countP (· matches .ok none) ∧
    (∀ e : ControllerError, m.counted e.label = (w.results steps).countP (Reconciled.failedAs e)) ∧
    (∀ kind, (m.tally kind).successes + (m.tally kind).errors +
        w.plant.powerCalls.countP (fun call => call.label? = some kind) =
      (w.after steps).plant.powerCalls.countP fun call => call.label? = some kind) ∧
    (∀ kind, (m.tally kind).errors = (w.refused steps).countP fun call => call.label? = some kind) ∧
    ∀ (v : World) (name : String) (now : Timestamp),
      (∀ server e, v.store.get name = some server → server.spec.plan server.spec.desired = .error e →
        (v.reconcile name now).2.metrics.actions = v.metrics.actions) ∧
      (∀ text, (v.reconcile name now).1 = .error (.powerAction (.config text)) ∨
          (v.reconcile name now).1 = .error (.invalidConfig text) →
        (v.reconcile name now).2.metrics.actions = v.metrics.actions) ∧
      ∀ call ∈ ((v.reconcile name now).2.plant.callsSince v.plant).powerCalls,
        name ∈ v.store.conflicts →
        (v.reconcile name now).1 = .error (.store (.conflict name)) ∧
          ∃ kind, call.label? = some kind ∧ (v.reconcile name now).2.metrics =
            (v.metrics.recordAction kind (v.plant.failure? call).isNone).recordReconciliation
              "store" := by
  intro m
  have ha := w.run_accounts hsteps
  have htotal := ha.total_eq
  have hcounted := ha.counted_eq
  have hactions := ha.actions_eq
  have herrors := ha.errors_eq
  rw [hfresh] at htotal hcounted hactions herrors
  have hlabel : ∀ {label : String} {p : Reconciled → Bool},
      (∀ r, resultLabel r = label ↔ p r = true) → m.counted label = (w.results steps).countP p := by
    intro label p hp
    rw [hcounted label]
    refine (Nat.zero_add _).trans (List.countP_congr fun r _ => ?_)
    rw [decide_eq_true_iff, hp]
  refine ⟨?_, hlabel resultLabel_requeued, hlabel resultLabel_done,
    fun e => hlabel (resultLabel_failed e), fun kind => ?_, fun kind => ?_, ?_⟩
  · rw [← length_results, htotal]
    exact Nat.zero_add _
  · rw [hactions kind, ha.calls_perm.countP_eq, List.countP_append, Nat.add_comm]
    exact congrArg _ (Nat.zero_add _)
  · rw [herrors kind]
    exact Nat.zero_add _
  · exact fun v name now => ⟨fun _ _ => actions_of_unplanned, fun _ => actions_of_misconfigured,
      fun _ => metrics_of_contested⟩

/-- A machine whose backend fails, and whose status is refused once: two wakes failed, and the first of
them is reported as a failure of the store. Without its MAC address nothing is tried. -/
theorem metrics_account_for_run_asleep :
    let asleep := Server.asleep.withPowerState .on
    let w := start [asleep] [] 3 (.ofSeconds 60)
    let steps : List Step := [.failWith .wake "no route", .conflictNext "m1", .reconcile "m1" .noon,
      .reconcile "m1" .noon]
    let m := (w.after steps).metrics
    let contested := w.after [.failWith .wake "no route", .conflictNext "m1"]
    let nameless :=
      start [{ asleep with spec := { asleep.spec with control := { wol := some { address := "10.0.0.1" } } } }]
        [] 3 (.ofSeconds 60)
    (m.total = 2 ∧ m.counted "store" = 1 ∧ m.counted "power_action" = 1 ∧
      (m.tally "wake").successes + (m.tally "wake").errors = 2 ∧ (m.tally "wake").errors = 2) ∧
    (nameless.reconcile "m1" .noon).2.metrics.actions = nameless.metrics.actions ∧
    (contested.reconcile "m1" .noon).2.metrics =
      (contested.metrics.recordAction "wake" false).recordReconciliation "store" := by
  intro asleep w steps m contested nameless
  have hsteps : ∀ s ∈ steps, s.SparesCounters := by simp [steps, Step.SparesCounters]
  obtain ⟨htotal, -, -, hfailed, hactions, herrors, hround⟩ :=
    metrics_account_for_run w rfl steps hsteps
  refine ⟨⟨?_, ?_, ?_, ?_, ?_⟩, ?_, ?_⟩
  · exact htotal
  · rw [show m.counted "store" = _ from hfailed (.store (.conflict "m1"))]
    decide +kernel
  · rw [show m.counted "power_action" = _ from hfailed (.powerAction (.config ""))]
    decide +kernel
  · have h := hactions "wake"
    have hnone : w.plant.powerCalls = [] := rfl
    rw [hnone, List.countP_nil, Nat.add_zero] at h
    rw [h]
    decide +kernel
  · refine (herrors "wake").trans ?_
    decide +kernel
  · exact (hround nameless "m1" .noon).2.1 "WOL MAC address is required" (.inl rfl)
  · have hcall : .wake ⟨"aa:bb:cc:dd:ee:ff", 9, none⟩ ∈
        ((contested.reconcile "m1" .noon).2.plant.callsSince contested.plant).powerCalls := by
      decide +kernel
    have hconflict : "m1" ∈ contested.store.conflicts := by decide +kernel
    obtain ⟨-, kind, hkind, hmetrics⟩ := (hround contested "m1" .noon).2.2 _ hcall hconflict
    cases hkind
    exact hmetrics

end World

end MetalPool
