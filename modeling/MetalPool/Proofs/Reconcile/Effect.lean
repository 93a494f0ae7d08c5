import MetalPool.Proofs.World.Command
/-!
# What a reconciliation changes

A reconciliation goes by the record it reads, by whether a conflict waits for
its write, and by the terms that none of them changes: the settings of the
controller, and which machines answer and which backends fail. `Effect` is all
that it changes, and worlds that are alike in those respects undergo the same
(`exists_effect`), whatever else they hold.
-/

namespace MetalPool

/-- What reconciliations go by and leave as it is. -/
structure Terms where
  threshold : UInt32
  requeue : Span
  reachable : SortedMap Bool
  wakeFailure : Option String
  shutdownFailure : Option String
  bmcFailure : Option String

/-- What one reconciliation changes. -/
structure Effect where
  result : Reconciled
  /-- The record afterwards, without its version. -/
  record : Option Server
  /-- A status is stored. -/
  written : Bool := false
  /-- A status is refused for a conflict, which is spent. -/
  spent : Bool := false
  probed : Option String := none
  call : Option PowerCall := none
  /-- The power action counted, and whether it succeeded. -/
  action : Option (String × Bool) := none

/-- The counters after the reconciliation. -/
def Effect.count (e : Effect) (m : Metrics) : Metrics :=
  (e.action.elim m fun a => m.recordAction a.1 a.2).recordReconciliation (World.resultLabel e.result)

namespace World

def terms (w : World) : Terms where
  threshold := w.threshold
  requeue := w.requeue
  reachable := w.plant.reachable
  wakeFailure := w.plant.wakeFailure
  shutdownFailure := w.plant.shutdownFailure
  bmcFailure := w.plant.bmcFailure

/-- The later world is `w` after a reconciliation of the record called `name` with the effect `e`. -/
structure Undergoes (w later : World) (name : String) (e : Effect) : Prop where
  terms_eq : later.terms = w.terms
  get_of_ne : ∀ n, n ≠ name → later.store.get n = w.store.get n
  record_eq : (later.store.get name).map Server.unversioned = e.record
  writes_eq : later.store.writes = w.store.writes + e.written.toNat
  conflicts_eq :
    later.store.conflicts = if e.spent then w.store.conflicts.erase name else w.store.conflicts
  probes_eq : later.plant.probes = w.plant.probes ++ e.probed.toList
  calls_perm : later.plant.powerCalls.Perm (w.plant.powerCalls ++ e.call.toList)
  metrics_eq : later.metrics = e.count w.metrics

/-- The two worlds are alike in all that a reconciliation of the record called `name` goes by. -/
structure AlikeAt (w v : World) (name : String) : Prop where
  terms_eq : v.terms = w.terms
  record_eq : (v.store.get name).map Server.unversioned = (w.store.get name).map Server.unversioned
  contested_iff : name ∈ v.store.conflicts ↔ name ∈ w.store.conflicts

variable {w v : World} {name : String} {server other : Server} {now : Timestamp} {r r' : Round}

/-! ## One decision -/

/-- A record leaves one decision. -/
theorem Decides.unique (hd : w.Decides name server now r) (hd' : w.Decides name server now r') :
    r = r' := by
  cases hd with
  | failed hf => exact (hd'.of_gaveUp hf).symm
  | frozen hf hc => exact (hd'.of_threshold hf hc).symm
  | unaddressed hf hc ha => exact (hd'.of_unaddressed hf hc ha).symm
  | arrived hp ht hr =>
    rcases hd'.of_transition hp ht with ⟨-, rfl⟩ | ⟨hr', -⟩
    · rfl
    · exact absurd hr hr'
  | waiting hp ht hr =>
    rcases hd'.of_transition hp ht with ⟨hr', -⟩ | ⟨-, rfl⟩
    · exact absurd hr' hr
    · rfl
  | converged hp ht hr =>
    rcases hd'.of_resting hp ht with ⟨-, rfl⟩ | ⟨hr', -⟩
    · rfl
    · exact absurd hr hr'
  | unplanned hp ht hr hplan =>
    rcases hd'.of_resting hp ht with ⟨hr', -⟩ |
      ⟨-, ⟨_, hplan', rfl⟩ | ⟨_, _, hplan', -⟩ | ⟨_, hplan', -⟩⟩
    · exact absurd hr' hr
    all_goals
      rw [hplan] at hplan'
      cases hplan'
    rfl
  | refused hp ht hr hplan he =>
    rcases hd'.of_resting hp ht with ⟨hr', -⟩ |
      ⟨-, ⟨_, hplan', -⟩ | ⟨_, _, hplan', he', rfl⟩ | ⟨_, hplan', he', -⟩⟩
    · exact absurd hr' hr
    all_goals
      rw [hplan] at hplan'
      cases hplan'
    all_goals
      rw [he] at he'
      cases he'
    rfl
  | commanded hp ht hr hplan he =>
    rcases hd'.of_resting hp ht with ⟨hr', -⟩ |
      ⟨-, ⟨_, hplan', -⟩ | ⟨_, _, hplan', he', -⟩ | ⟨_, hplan', -, rfl⟩⟩
    · exact absurd hr' hr
    all_goals
      rw [hplan] at hplan'
      cases hplan'
    · rw [he] at he'
      cases he'
    · rfl

/-- Whether a command succeeds hangs on the backends that are set to fail. -/
theorem execute_fst_of_terms (h : v.terms = w.terms) (command : PowerCommand) :
    (v.plant.execute command).1 = (w.plant.execute command).1 := by
  have hwake : v.plant.wakeFailure = w.plant.wakeFailure := congrArg Terms.wakeFailure h
  have hshutdown : v.plant.shutdownFailure = w.plant.shutdownFailure := congrArg Terms.shutdownFailure h
  have hbmc : v.plant.bmcFailure = w.plant.bmcFailure := congrArg Terms.bmcFailure h
  cases command with
  | wake => simp only [Plant.execute_wake, Plant.wake, hwake]
  | shutdown => simp only [Plant.execute_shutdown, Plant.shutdown, hshutdown]
  | bmcOn | bmcOff =>
    simp only [Plant.execute_bmcOn, Plant.execute_bmcOff, Plant.bmcSwitch, Plant.noteBmc, hbmc]
    split <;> rfl

/-- A decision hangs on the record and the terms alone. -/
theorem Decides.of_terms (hd : w.Decides name server now r) (hterms : v.terms = w.terms)
    (hrecord : other.unversioned = server.unversioned) : v.Decides name other now r := by
  have hstatus : server.statusOrDefault = other.statusOrDefault :=
    (congrArg Server.statusOrDefault hrecord.symm :)
  have hspec : server.spec = other.spec := (congrArg Server.spec hrecord.symm :)
  have hthreshold : w.threshold = v.threshold := congrArg Terms.threshold hterms.symm
  have hrequeue : w.requeue = v.requeue := congrArg Terms.requeue hterms.symm
  have hreach : w.plant.isReachable = v.plant.isReachable := by
    funext address
    exact congrArg (fun t : Terms => (t.reachable.get? address).getD false) hterms.symm
  have hexecute : ∀ c, (w.plant.execute c).1 = (v.plant.execute c).1 := fun c =>
    (execute_fst_of_terms hterms c).symm
  have hprobes : ∀ {address}, w.Probes server address → v.Probes other address := by
    rintro address ⟨hf, hlt, ha⟩
    rw [hstatus] at hf hlt
    rw [hthreshold] at hlt
    rw [hspec] at ha
    exact ⟨hf, hlt, ha⟩
  cases hd with
  | failed hf =>
    rw [hstatus] at hf ⊢
    exact .failed hf
  | frozen hf hc =>
    rw [hstatus] at hf hc ⊢
    rw [hthreshold] at hc
    exact .frozen hf hc
  | unaddressed hf hc ha =>
    rw [hstatus] at hf hc ⊢
    rw [hthreshold] at hc
    rw [hspec] at ha
    exact .unaddressed hf hc ha
  | arrived hp ht hr =>
    rw [hstatus] at ht
    rw [hreach] at hr
    exact .arrived (hprobes hp) ht hr
  | waiting hp ht hr =>
    rw [hstatus] at ht ⊢
    rw [hreach] at hr
    rw [hrequeue]
    exact .waiting (hprobes hp) ht hr
  | converged hp ht hr =>
    rw [hstatus] at ht ⊢
    rw [hreach, hspec] at hr
    rw [hspec]
    exact .converged (hprobes hp) ht hr
  | unplanned hp ht hr hplan =>
    rw [hstatus] at ht ⊢
    rw [hreach, hspec] at hr
    rw [hspec] at hplan
    exact .unplanned (hprobes hp) ht hr hplan
  | refused hp ht hr hplan he =>
    rw [hstatus] at ht ⊢
    rw [hreach, hspec] at hr
    rw [hspec] at hplan
    rw [hexecute] at he
    exact .refused (hprobes hp) ht hr hplan he
  | commanded hp ht hr hplan he =>
    rw [hstatus] at ht ⊢
    rw [hreach, hspec] at hr
    rw [hspec] at hplan ⊢
    rw [hexecute] at he
    rw [hrequeue]
    exact .commanded (hprobes hp) ht hr hplan he

/-! ## One reconciliation -/

theorem powerCalls_note (p : Plant) (call : PowerCall) :
    (p.note call).powerCalls.Perm (p.powerCalls ++ [call]) := by
  unfold Plant.powerCalls
  cases call with
  | wake c =>
    simp only [Plant.note, List.map_append, List.map_singleton, List.append_assoc]
    refine List.Perm.append_left _ ?_
    rw [← List.append_assoc _ _ [PowerCall.wake c]]
    exact List.perm_append_comm
  | shutdown c =>
    simp only [Plant.note, List.map_append, List.map_singleton, List.append_assoc]
    exact List.Perm.append_left _ (List.Perm.append_left _ List.perm_append_comm)
  | bmc c =>
    simp only [Plant.note, List.map_append, List.map_singleton, List.append_assoc]
    exact List.Perm.refl _

theorem carry_powerCalls_perm (w : World) (r : Round) :
    (w.carry r).plant.powerCalls.Perm
      (w.plant.powerCalls ++ (r.command.map PowerCommand.call).toList) := by
  have hexecute : ∀ (p : Plant) (c : PowerCommand),
      (p.execute c).2.powerCalls.Perm (p.powerCalls ++ [c.call]) := by
    intro p c
    obtain ⟨powered, he⟩ := p.execute_note c
    rw [he]
    exact powerCalls_note p c.call
  obtain ⟨probed, command, status, result⟩ := r
  cases command with
  | none => cases probed <;> simp [carry, probe, Plant.probe, Plant.powerCalls]
  | some c => cases probed <;> exact hexecute _ c

theorem execute_terms (w : World) (c : PowerCommand) : (w.execute c).2.terms = w.terms := by
  obtain ⟨powered, he⟩ := w.plant.execute_note c
  simp only [terms, execute, Plant.backends_execute, he]
  cases c.call <;> rfl

theorem carry_terms (w : World) (r : Round) : (w.carry r).terms = w.terms := by
  obtain ⟨probed, command, status, result⟩ := r
  cases command with
  | none => cases probed <;> rfl
  | some c => cases probed <;> exact execute_terms _ c

/-- The power action counted for a round. -/
def actionOf (w : World) (r : Round) : Option (String × Bool) :=
  r.command.map fun c => (c.label, (w.plant.execute c).1.isOk)

theorem metrics_execute (w : World) (c : PowerCommand) :
    (w.execute c).2.metrics = w.metrics.recordAction c.label (w.plant.execute c).1.isOk := by
  unfold execute
  dsimp only
  rw [Plant.backends_execute]
  cases (w.plant.execute c).1 <;> rfl

theorem carry_metrics (w : World) (r : Round) :
    (w.carry r).metrics =
      (w.actionOf r).elim w.metrics fun a => w.metrics.recordAction a.1 a.2 := by
  obtain ⟨probed, command, status, result⟩ := r
  cases command with
  | none => cases probed <;> rfl
  | some c =>
    cases probed with
    | none => exact metrics_execute w c
    | some address =>
      have he := metrics_execute (w.probe address).2 c
      rw [show ((w.probe address).2.plant.execute c).1 = (w.plant.execute c).1 from
        w.plant.execute_probe address c] at he
      exact he

/-- All that the round of a record changes. -/
def effectOf (w : World) (name : String) (server : Server) (r : Round) : Effect :=
  let changed := decide (r.status ≠ server.statusOrDefault)
  let contested := decide (name ∈ w.store.conflicts)
  { result := if changed && contested then .error (.store (.conflict name)) else r.result
    record :=
      some (if changed && !contested then (server.withStatus r.status).unversioned
        else server.unversioned)
    written := changed && !contested
    spent := changed && contested
    probed := r.probed
    call := r.command.map PowerCommand.call
    action := w.actionOf r }

/-- The world after a round that leaves `store` and is counted with `result`. -/
def close (w : World) (r : Round) (store : Store) (result : Reconciled) : World :=
  { w.carry r with store, metrics := (w.carry r).metrics.recordReconciliation (resultLabel result) }

/-- A reconciliation is the round that the record leaves. -/
theorem reconcile_of_decides (hg : w.store.get name = some server)
    (hd : w.Decides name server now r) :
    w.reconcile name now =
      if r.status = server.statusOrDefault then (r.result, w.close r w.store r.result)
      else if name ∈ w.store.conflicts then
        (.error (.store (.conflict name)),
          w.close r (w.store.spend name) (.error (.store (.conflict name))))
      else (r.result, w.close r (w.store.commit name (server.withStatus r.status)) r.result) := by
  obtain ⟨r', hd', he⟩ := reconcileRecord_of_get hg now
  obtain rfl := hd.unique hd'
  rw [conclude_of_get (by simpa using hg), carry_store] at he
  unfold reconcile
  rw [he]
  by_cases hs : r.status = server.statusOrDefault
  · rw [if_pos hs, if_pos hs, close, ← carry_store w r]
  · rw [if_neg hs, if_neg hs]
    by_cases hc : name ∈ w.store.conflicts
    · rw [if_pos hc, if_pos hc]
      rfl
    · rw [if_neg hc, if_neg hc]
      rfl

/-- What the round probes, commands and counts is in its effect; the rest is in the store. -/
theorem undergoes_close {store : Store} {e : Effect} {result : Reconciled}
    (hresult : e.result = result) (hprobed : e.probed = r.probed)
    (hcall : e.call = r.command.map PowerCommand.call) (haction : e.action = w.actionOf r)
    (hget : ∀ n, n ≠ name → store.get n = w.store.get n)
    (hrecord : (store.get name).map Server.unversioned = e.record)
    (hwrites : store.writes = w.store.writes + e.written.toNat)
    (hconflicts :
      store.conflicts = if e.spent then w.store.conflicts.erase name else w.store.conflicts) :
    w.Undergoes (w.close r store result) name e where
  terms_eq := carry_terms w r
  get_of_ne := hget
  record_eq := hrecord
  writes_eq := hwrites
  conflicts_eq := hconflicts
  probes_eq := by rw [hprobed]; exact probes_carry w r
  calls_perm := by rw [hcall]; exact carry_powerCalls_perm w r
  metrics_eq := by rw [Effect.count, haction, ← carry_metrics w r, hresult]; rfl

theorem undergoes_of_decides (hg : w.store.get name = some server)
    (hd : w.Decides name server now r) :
    (w.reconcile name now).1 = (w.effectOf name server r).result ∧
      w.Undergoes (w.reconcile name now).2 name (w.effectOf name server r) := by
  rw [reconcile_of_decides hg hd]
  by_cases hs : r.status = server.statusOrDefault
  · have heffect : w.effectOf name server r =
        { result := r.result
          record := some server.unversioned
          probed := r.probed
          call := r.command.map PowerCommand.call
          action := w.actionOf r } := by simp [effectOf, hs]
    rw [if_pos hs, heffect]
    refine ⟨rfl, undergoes_close rfl rfl rfl rfl (fun _ _ => rfl) ?_ rfl rfl⟩
    rw [hg, Option.map_some]
  · rw [if_neg hs]
    by_cases hc : name ∈ w.store.conflicts
    · have heffect : w.effectOf name server r =
          { result := .error (.store (.conflict name))
            record := some server.unversioned
            spent := true
            probed := r.probed
            call := r.command.map PowerCommand.call
            action := w.actionOf r } := by simp [effectOf, hs, hc]
      rw [if_pos hc, heffect]
      refine ⟨rfl, undergoes_close rfl rfl rfl rfl (fun _ _ => rfl) ?_ rfl rfl⟩
      rw [Store.get_spend, hg, Option.map_some]
    · have heffect : w.effectOf name server r =
          { result := r.result
            record := some (server.withStatus r.status).unversioned
            written := true
            probed := r.probed
            call := r.command.map PowerCommand.call
            action := w.actionOf r } := by simp [effectOf, hs, hc]
      rw [if_neg hc, heffect]
      refine ⟨rfl, undergoes_close rfl rfl rfl rfl ?_ ?_ rfl rfl⟩
      · intro n hn
        rw [Store.get_commit, if_neg hn]
      · rw [Store.get_commit, if_pos rfl, Option.map_some, Server.unversioned_withVersion]

/-- Without a record only the result is counted. -/
theorem undergoes_of_none (hg : w.store.get name = none) (now : Timestamp) :
    (w.reconcile name now).1 = .ok none ∧
      w.Undergoes (w.reconcile name now).2 name { result := .ok none, record := none } := by
  rw [reconcile_of_none hg]
  refine ⟨rfl, ?_⟩
  exact
    { terms_eq := rfl
      get_of_ne := fun _ _ => rfl
      record_eq := by rw [hg, Option.map_none]
      writes_eq := rfl
      conflicts_eq := rfl
      probes_eq := (List.append_nil _).symm
      calls_perm := by rw [Option.toList_none, List.append_nil]
      metrics_eq := rfl }

/-- Worlds alike in what a reconciliation goes by undergo the same. -/
theorem exists_effect (w : World) (name : String) (now : Timestamp) :
    ∃ e, ∀ v : World, w.AlikeAt v name →
      (v.reconcile name now).1 = e.result ∧ v.Undergoes (v.reconcile name now).2 name e := by
  cases hg : w.store.get name with
  | none =>
    refine ⟨{ result := .ok none, record := none }, fun v hv => undergoes_of_none ?_ now⟩
    simpa [hg] using hv.record_eq
  | some server =>
    obtain ⟨r, hd, -⟩ := reconcileRecord_of_get hg now
    refine ⟨w.effectOf name server r, fun v hv => ?_⟩
    obtain ⟨other, hother, hsame⟩ : ∃ other, v.store.get name = some other ∧
        other.unversioned = server.unversioned := by
      simpa [hg] using hv.record_eq
    have heffect : v.effectOf name other r = w.effectOf name server r := by
      have hstatus : other.statusOrDefault = server.statusOrDefault :=
        (congrArg Server.statusOrDefault hsame :)
      have hwith : (other.withStatus r.status).unversioned = (server.withStatus r.status).unversioned :=
        (congrArg (fun s => s.withStatus r.status) hsame :)
      have haction : v.actionOf r = w.actionOf r := by
        simp only [actionOf, execute_fst_of_terms hv.terms_eq]
      simp only [effectOf, hstatus, hwith, hsame, haction, hv.contested_iff]
    rw [← heffect]
    exact undergoes_of_decides hother (hd.of_terms hv.terms_eq hsame)

end World

end MetalPool
