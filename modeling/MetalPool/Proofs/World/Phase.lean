import MetalPool.Proofs.World.Command
/-!
# Phases over a run

`PhaseEdge` lists the ways in which the phase of a record may change from one
stored version to the next. Every version that a step of the controller, of the
pool's clients or of the machines stores is along such an edge (`step_edge`),
and `phases_follow_lifecycle` draws the consequences for whole runs: a machine
given up stays so, and after a command no other is issued until the transition
is over.
-/

namespace MetalPool

open ServerStatus (transitionPhase)

/-- The phase of a record, that of a machine never seen if there is no status. -/
def Server.phase (s : Server) : Option Phase := s.statusOrDefault.phase

theorem Server.phase_eq_of_status {a b : Server} (h : a.status = b.status) : a.phase = b.phase := by
  unfold Server.phase Server.statusOrDefault
  rw [h]

namespace World

/-- The step reconciles the record `server`, called `name`, and probes its machine with this result. -/
def Probed (w : World) (s : Step) (name : String) (server : Server) (reachable : Bool) : Prop :=
  ∃ now address, s = .reconcile name now ∧ server.spec.address? = some address ∧
    (w.noted s).probes = [address] ∧ w.plant.isReachable address = reachable

/-- The step reconciles the record called `name` with one command toward `d`, which succeeds. -/
def Commanded (w : World) (s : Step) (name : String) (d : PowerState) : Prop :=
  ∃ now command, s = .reconcile name now ∧ command.target = d ∧
    (w.noted s).powerCalls = [command.call] ∧ (w.plant.execute command).1 = .ok ()

/-- How the record called `name` may change from the version `old`, stored before step `s`, to the
version `new`, stored in that step. -/
structure PhaseEdge (w : World) (s : Step) (name : String) (old new : Server) : Prop where
  pending : old.phase = some .pending →
    new.phase = some .pending ∨ new.phase = some .failed ∨
      new.phase = some .active ∧ w.Probed s name old true
  draining : old.phase = some .draining →
    new.phase = some .draining ∨ new.phase = some .failed ∨
      new.phase = some .offline ∧ w.Probed s name old false
  /-- Given up for good: no status is written, nothing is probed and nothing commanded. -/
  failed : old.phase = some .failed →
    new.status = old.status ∧
      ∀ now, s = .reconcile name now →
        new = old ∧ (w.noted s).probes = [] ∧ (w.noted s).powerCalls = []
  to_pending : old.phase ≠ some .pending → new.phase = some .pending → w.Commanded s name .on
  to_draining : old.phase ≠ some .draining → new.phase = some .draining → w.Commanded s name .off
  set : old.phase ≠ none → new.phase ≠ none

variable {w : World} {s : Step} {name : String} {old new : Server}

/-- A version with the same phase is along an edge, if one given up is left alone. -/
theorem PhaseEdge.of_phase_eq (h : new.phase = old.phase)
    (hf : old.phase = some .failed → new.status = old.status ∧ ∀ now, s = .reconcile name now →
      new = old ∧ (w.noted s).probes = [] ∧ (w.noted s).powerCalls = []) :
    w.PhaseEdge s name old new where
  pending ho := .inl (h.trans ho)
  draining ho := .inl (h.trans ho)
  failed := hf
  to_pending ho hn := absurd (h ▸ hn) ho
  to_draining ho hn := absurd (h ▸ hn) ho
  set ho := h ▸ ho

theorem PhaseEdge.of_status_eq (h : new.status = old.status) (hs : ∀ now, s ≠ .reconcile name now) :
    w.PhaseEdge s name old new :=
  .of_phase_eq (Server.phase_eq_of_status h) fun _ => ⟨h, fun now he => absurd he (hs now)⟩

theorem PhaseEdge.of_failed (h : new.phase = some .failed) (hf : old.phase ≠ some .failed) :
    w.PhaseEdge s name old new where
  pending _ := .inr (.inl h)
  draining _ := .inr (.inl h)
  failed ho := absurd ho hf
  to_pending _ hn := by rw [h] at hn; cases hn
  to_draining _ hn := by rw [h] at hn; cases hn
  set _ := by rw [h]; exact Option.some_ne_none _

/-- A machine seen on or off is in a transition no more. -/
theorem PhaseEdge.of_seen {reachable : Bool} (h : new.phase = some (Phase.seen reachable))
    (hf : old.phase ≠ some .failed)
    (hon : old.phase = some .pending → reachable = true ∧ w.Probed s name old true)
    (hoff : old.phase = some .draining → reachable = false ∧ w.Probed s name old false) :
    w.PhaseEdge s name old new where
  pending ho := by
    obtain ⟨rfl, hprobed⟩ := hon ho
    exact .inr (.inr ⟨h, hprobed⟩)
  draining ho := by
    obtain ⟨rfl, hprobed⟩ := hoff ho
    exact .inr (.inr ⟨h, hprobed⟩)
  failed ho := absurd ho hf
  to_pending _ hn := by rw [h] at hn; cases reachable <;> cases hn
  to_draining _ hn := by rw [h] at hn; cases reachable <;> cases hn
  set _ := by rw [h]; exact Option.some_ne_none _

/-- From rest any phase can follow, a transition only with its command. -/
theorem PhaseEdge.of_resting (ht : old.statusOrDefault.Resting)
    (hon : new.phase = some .pending → w.Commanded s name .on)
    (hoff : new.phase = some .draining → w.Commanded s name .off) (hset : new.phase ≠ none) :
    w.PhaseEdge s name old new where
  pending ho := absurd ho (ht.ne_transition .on)
  draining ho := absurd ho (ht.ne_transition .off)
  failed ho := absurd ho ht.not_failed
  to_pending _ := hon
  to_draining _ := hoff
  set _ := hset

/-! ## One reconciliation -/

variable {now : Timestamp} {r : Round}

theorem Decides.of_failed (hd : w.Decides name old now r) (hf : old.phase = some .failed) :
    r.probed = none ∧ r.command = none ∧ r.status = old.statusOrDefault := by
  cases hd with
  | failed => exact ⟨rfl, rfl, rfl⟩
  | frozen h | unaddressed h => exact absurd hf h
  | arrived hp | waiting hp | converged hp | unplanned hp | refused hp | commanded hp =>
    exact absurd hf hp.not_failed

/-- A command that succeeds ends in its transition. -/
theorem Decides.of_command (hd : w.Decides name old now r) {command : PowerCommand}
    (hc : r.command = some command) (hr : r.result.isOk) :
    old.statusOrDefault.Resting ∧ r.status.phase = some (transitionPhase old.spec.desired) := by
  cases hd with
  | refused => cases hr
  | commanded _ ht => exact ⟨ht, rfl⟩
  | _ => cases hc

theorem Persists.of_ok {result : Reconciled} {store : Store} (h : w.Persists name old r result store)
    (hok : result.isOk) :
    r.result.isOk ∧
      (r.status ≠ old.statusOrDefault → store = w.store.commit name (old.withStatus r.status)) := by
  cases h with
  | unchanged hs => exact ⟨hok, fun hne => absurd hs hne⟩
  | conflict => cases hok
  | stored => exact ⟨hok, fun _ => rfl⟩

/-- A status that a round ends with is along an edge from the one it found. -/
theorem Decides.edge (hd : w.Decides name old now.onClock r) (hne : r.status ≠ old.statusOrDefault)
    (hcalls : (w.noted (.reconcile name now)).powerCalls = r.command.toList.map PowerCommand.call)
    (hprobes : (w.noted (.reconcile name now)).probes = r.probed.toList)
    (hn : new.phase = r.status.phase) : w.PhaseEdge (.reconcile name now) name old new := by
  cases hd with
  | failed => exact absurd rfl hne
  | frozen hf | unaddressed hf => exact .of_failed hn hf
  | unplanned hp | refused hp => exact .of_failed hn hp.not_failed
  | waiting hp => exact .of_phase_eq hn fun hf => absurd hf hp.not_failed
  | @arrived address d hp ht hr =>
    have hprobed : w.Probed (.reconcile name now) name old d.isOn :=
      ⟨now, address, rfl, hp.address_eq, hprobes, hr⟩
    have ho : old.phase = some (transitionPhase d) := ht
    refine .of_seen hn hp.not_failed (fun h => ?_) (fun h => ?_)
    all_goals
      rw [ho] at h
      cases d <;> cases h
      exact ⟨rfl, hprobed⟩
  | converged hp ht =>
    refine .of_seen hn hp.not_failed (fun h => ?_) (fun h => ?_)
    · exact absurd h (ht.ne_transition .on)
    · exact absurd h (ht.ne_transition .off)
  | @commanded address command hp ht hr hplan he =>
    have hc : w.Commanded (.reconcile name now) name old.spec.desired :=
      ⟨now, command, rfl, (ServerSpec.plans_of_plan hplan).target, hcalls, he⟩
    have hn' : new.phase = some (transitionPhase old.spec.desired) := hn
    generalize old.spec.desired = d at hc hn'
    refine .of_resting ht (fun h => ?_) (fun h => ?_) (by rw [hn']; exact Option.some_ne_none _)
    all_goals
      rw [hn'] at h
      cases d <;> first | exact hc | cases h

/-- A reconciliation leaves a version of its record that is along an edge. -/
theorem reconcile_edge (hg : w.store.get name = some old) (now : Timestamp) :
    ∃ new, (w.step (.reconcile name now)).2.store.get name = some new ∧
      w.PhaseEdge (.reconcile name now) name old new := by
  obtain ⟨r, hd, hs, hcalls, hprobes⟩ := reconcile_round hg now.onClock
  rcases hs.get_self hg with hg' | ⟨hne, -, hg'⟩
  · -- The record is left as it is; of a machine given up not even a probe is noted.
    refine ⟨old, hg', .of_phase_eq rfl fun hf => ⟨rfl, ?_⟩⟩
    obtain ⟨hp, hc, -⟩ := hd.of_failed hf
    intro now' _
    rw [hp] at hprobes
    rw [hc] at hcalls
    exact ⟨rfl, hprobes, hcalls⟩
  · exact ⟨_, hg', hd.edge hne hcalls hprobes rfl⟩

/-! ## One step -/

/-- What a step does to a record, in every store that it goes through: its phase goes along an edge,
and nothing but a reconciliation of the record writes its status. -/
theorem step_edge (hs : s.Operational) (hg : w.store.get name = some old) {store : Store}
    (hm : store ∈ w.trail s) :
    ∃ new, store.get name = some new ∧ w.PhaseEdge s name old new ∧
      ((∀ now, s ≠ .reconcile name now) → new.status = old.status) := by
  rcases hs.cases with ⟨n, now, rfl⟩ | hspare
  · -- A reconciliation stores once.
    rw [List.mem_singleton.1 hm]
    by_cases hn : name = n
    · subst hn
      obtain ⟨new, hg', he⟩ := reconcile_edge hg now
      exact ⟨new, hg', he, fun h => absurd rfl (h now)⟩
    · have hother : ∀ now', Step.reconcile n now ≠ .reconcile name now' := by
        intro now' he
        cases he
        exact hn rfl
      exact ⟨old, (reconcile_get_of_ne hn now.onClock).trans hg, .of_status_eq rfl hother, fun _ => rfl⟩
  · obtain ⟨new, hg', hv⟩ := Store.status_of_adapterView (trail_adapterView hspare store hm) hg
    have hst := Server.status_eq_of_adapterView hv
    refine ⟨new, hg', .of_status_eq hst ?_, fun _ => hst⟩
    rintro now rfl
    cases hspare

/-- What a step leaves behind is one of the versions it stores, unless it stores none. -/
theorem step_phase (hs : s.Operational) (hg : w.store.get name = some old) :
    ∃ new, (w.step s).2.store.get name = some new ∧
      (new.status = old.status ∨ w.PhaseEdge s name old new) := by
  rcases step_store_mem w s with he | hm
  · rw [he]
    exact ⟨old, hg, .inl rfl⟩
  · obtain ⟨new, hg', he, -⟩ := step_edge hs hg hm
    exact ⟨new, hg', .inr he⟩

/-! ## Runs -/

/-- The record called `name` is in a transition or given up. -/
def Held (w : World) (name : String) : Prop :=
  ∃ server, w.store.get name = some server ∧ ¬ server.statusOrDefault.Resting

/-- A reconciliation issues a command, which succeeds, and records that. -/
def Records (w : World) (name : String) (now : Timestamp) : Prop :=
  (w.noted (.reconcile name now)).powerCalls ≠ [] ∧ (w.reconcile name now.onClock).1.isOk

/-- A reconciliation ends a transition: it stores that the machine is on or off. -/
def Settles (w : World) (name : String) (now : Timestamp) : Prop :=
  ∃ old new, w.store.get name = some old ∧ (w.step (.reconcile name now)).2.store.get name = some new ∧
    (old.phase = some .pending ∧ new.phase = some .active ∨
      old.phase = some .draining ∧ new.phase = some .offline)

theorem held_of_phase (hg : w.store.get name = some old)
    (h : (∃ d, old.phase = some (transitionPhase d)) ∨ old.phase = some .failed) : w.Held name := by
  refine ⟨old, hg, fun hr => ?_⟩
  rcases h with ⟨d, h⟩ | h
  · exact hr.ne_transition d h
  · exact hr.not_failed h

/-- No command is issued for a record in a transition or given up. -/
theorem Held.powerCalls_eq (h : w.Held name) (now : Timestamp) :
    (w.noted (.reconcile name now)).powerCalls = [] := by
  obtain ⟨server, hg, hh⟩ := h
  refine List.eq_nil_iff_forall_not_mem.2 fun call hcall => ?_
  obtain ⟨server', address, command, hdue, -⟩ := due_of_call hcall
  have he : server = server' := Option.some.inj (hg.symm.trans hdue.get_eq)
  exact hh (he ▸ hdue.resting)

/-- A transition stays one, or the machine is given up, unless a reconciliation ends it. -/
theorem Held.step (h : w.Held name) (hs : s.Operational) :
    (w.step s).2.Held name ∨ ∃ now, s = .reconcile name now ∧ w.Settles name now := by
  obtain ⟨old, hg, hh⟩ := h
  obtain ⟨new, hg', hst | he⟩ := step_phase hs hg
  · refine .inl ⟨new, hg', ?_⟩
    unfold Server.statusOrDefault at hh ⊢
    rwa [hst]
  · rcases old.statusOrDefault.resting_or with hf | hr | ⟨d, ht⟩
    · exact .inl (held_of_phase hg' (.inr ((Server.phase_eq_of_status (he.failed hf).1).trans hf)))
    · exact absurd hr hh
    · cases d with
      | on =>
        rcases he.pending ht with h | h | ⟨hactive, now, _, rfl, _⟩
        · exact .inl (held_of_phase hg' (.inl ⟨.on, h⟩))
        · exact .inl (held_of_phase hg' (.inr h))
        · exact .inr ⟨now, rfl, old, new, hg, hg', .inl ⟨ht, hactive⟩⟩
      | off =>
        rcases he.draining ht with h | h | ⟨hoffline, now, _, rfl, _⟩
        · exact .inl (held_of_phase hg' (.inl ⟨.off, h⟩))
        · exact .inl (held_of_phase hg' (.inr h))
        · exact .inr ⟨now, rfl, old, new, hg, hg', .inr ⟨ht, hoffline⟩⟩

/-- A command that succeeded and is recorded leaves its record in a transition. -/
theorem Records.held (h : w.Records name now) : (w.step (.reconcile name now)).2.Held name := by
  obtain ⟨hcalls, hok⟩ := h
  obtain ⟨call, hcall⟩ := List.exists_mem_of_ne_nil _ hcalls
  obtain ⟨server, address, command, hdue, -⟩ := due_of_call hcall
  obtain ⟨r, hd, hs, -⟩ := reconcile_round hdue.get_eq now.onClock
  have hc : r.command = some command := (hd.command_iff hdue.get_eq command).2 ⟨address, hdue⟩
  obtain ⟨hresult, hstored⟩ := hs.of_ok hok
  obtain ⟨ht, hphase⟩ := hd.of_command hc hresult
  have hne : r.status ≠ server.statusOrDefault := by
    intro he
    rw [he] at hphase
    exact ht.ne_transition _ hphase
  have hg : (w.step (.reconcile name now)).2.store.get name =
      some ((server.withStatus r.status).withVersion w.store.nextVersion) := by
    rw [show (w.step (.reconcile name now)).2.store = _ from hstored hne, Store.get_commit, if_pos rfl]
  exact held_of_phase hg (.inl ⟨_, hphase⟩)

/-- A record stays in its transition, or given up, until a reconciliation ends the transition. -/
theorem Held.after (h : w.Held name) {steps : List Step} (hs : ∀ s ∈ steps, s.Operational) :
    (w.after steps).Held name ∨ ∃ pre now post, steps = pre ++ .reconcile name now :: post ∧
      (w.after pre).Settles name now := by
  induction steps generalizing w with
  | nil => exact .inl h
  | cons s rest ih =>
    rcases h.step (hs s List.mem_cons_self) with h | ⟨now, rfl, hsettles⟩
    · rcases ih h (fun t ht => hs t (List.mem_cons_of_mem _ ht)) with h | ⟨pre, now, post, rfl, hsettles⟩
      · exact .inl h
      · exact .inr ⟨s :: pre, now, post, rfl, hsettles⟩
    · exact .inr ⟨[], now, rest, rfl, hsettles⟩

/-- Given up is for good. -/
theorem after_failed (hg : w.store.get name = some old) (hf : old.phase = some .failed)
    {steps : List Step} (hs : ∀ s ∈ steps, s.Operational) :
    ∃ new, (w.after steps).store.get name = some new ∧ new.status = old.status := by
  have hkeep : ∀ (v : World) (s : Step),
      (∃ new, v.store.get name = some new ∧ new.status = old.status) → s.Operational →
      ∃ new, (v.step s).2.store.get name = some new ∧ new.status = old.status := by
    rintro v s ⟨mid, hg, hst⟩ hs
    obtain ⟨new, hg', h | he⟩ := step_phase hs hg
    · exact ⟨new, hg', h.trans hst⟩
    · have hmid : mid.phase = some .failed := (Server.phase_eq_of_status hst).trans hf
      exact ⟨new, hg', (he.failed hmid).1.trans hst⟩
  exact after_inv hkeep hs ⟨old, hg, rfl⟩

/-! ## Main theorem -/

/-- Along every run without writes from outside:
* the versions that a step stores of a record are along edges from the version before, and only
  reconciliations of the record write its status;
* the status of a machine given up stays as it is, and reconciling it does nothing;
* once a successful command is recorded, the next one comes after the end of its transition. -/
theorem phases_follow_lifecycle (w : World) {steps : List Step} (hs : ∀ s ∈ steps, s.Operational)
    (name : String) :
    (∀ pre s post old, steps = pre ++ s :: post → (w.after pre).store.get name = some old →
      ∀ store ∈ (w.after pre).trail s, ∃ new, store.get name = some new ∧
        (w.after pre).PhaseEdge s name old new ∧
        ((∀ now, s ≠ .reconcile name now) → new.status = old.status)) ∧
    (∀ pre mid post old, steps = pre ++ mid ++ post → (w.after pre).store.get name = some old →
      old.phase = some .failed →
      ∃ new, (w.after (pre ++ mid)).store.get name = some new ∧ new.status = old.status ∧
        ∀ now, ((w.after (pre ++ mid)).step (.reconcile name now)).2.store.get name = some new ∧
          ((w.after (pre ++ mid)).noted (.reconcile name now)).probes = [] ∧
          ((w.after (pre ++ mid)).noted (.reconcile name now)).powerCalls = []) ∧
    ∀ pre now mid now' post, steps = pre ++ .reconcile name now :: mid ++ .reconcile name now' :: post →
      (w.after pre).Records name now →
      ((w.after (pre ++ .reconcile name now :: mid)).noted (.reconcile name now')).powerCalls ≠ [] →
      ∃ between now'' rest, mid = between ++ .reconcile name now'' :: rest ∧
        (w.after (pre ++ .reconcile name now :: between)).Settles name now'' := by
  refine ⟨?_, ?_, ?_⟩
  · rintro pre s post old rfl hg store hm
    exact step_edge (hs s (by simp)) hg hm
  · rintro pre mid post old rfl hg hf
    rw [after_append]
    have hmid : ∀ s ∈ mid, s.Operational := fun s hm => hs s (by simp [hm])
    obtain ⟨new, hg', hst⟩ := after_failed hg hf hmid
    refine ⟨new, hg', hst, fun now => ?_⟩
    obtain ⟨newest, hg'', he⟩ := reconcile_edge hg' now
    have hnew : new.phase = some .failed := (Server.phase_eq_of_status hst).trans hf
    obtain ⟨rfl, hprobes, hcalls⟩ := (he.failed hnew).2 now rfl
    exact ⟨hg'', hprobes, hcalls⟩
  · rintro pre now mid now' post rfl hrecords hcalls
    rw [after_append, after_cons] at hcalls
    have hmid : ∀ s ∈ mid, s.Operational := fun s hm => hs s (by simp [hm])
    rcases hrecords.held.after hmid with hheld | ⟨between, now'', rest, rfl, hsettles⟩
    · exact absurd (hheld.powerCalls_eq now') hcalls
    · refine ⟨between, now'', rest, rfl, ?_⟩
      rw [after_append, after_cons]
      exact hsettles

/-- A machine woken and shut down again: it was seen to come up in between. -/
theorem phases_follow_lifecycle_asleep :
    let w := start [.asleep] [] 3 (.ofSeconds 60)
    let up : List Step := [.pool (.increaseSize Pool.groupId 1)]
    let mid : List Step :=
      [.setReachable "10.0.0.1" true, .reconcile "m1" .noon, .updatePowerState "m1" none .off]
    (w.after up).Records "m1" .noon ∧
      ((w.after (up ++ .reconcile "m1" .noon :: mid)).noted (.reconcile "m1" .noon)).powerCalls =
        [.shutdown ⟨"10.0.0.1", none⟩] ∧
      ∃ between now rest, mid = between ++ .reconcile "m1" now :: rest ∧
        (w.after (up ++ .reconcile "m1" .noon :: between)).Settles "m1" now := by
  intro w up mid
  have hs : ∀ s ∈ up ++ .reconcile "m1" .noon :: mid ++ [.reconcile "m1" .noon], s.Operational := by
    intro s hs
    simp only [up, mid, List.cons_append, List.nil_append, List.mem_cons, List.not_mem_nil, or_false] at hs
    rcases hs with rfl | rfl | rfl | rfl | rfl | rfl <;> trivial
  have hrecords : (w.after up).Records "m1" .noon := ⟨by decide +kernel, by decide +kernel⟩
  have hoff : ((w.after (up ++ .reconcile "m1" .noon :: mid)).noted (.reconcile "m1" .noon)).powerCalls =
      [.shutdown ⟨"10.0.0.1", none⟩] := by decide +kernel
  refine ⟨hrecords, hoff, (phases_follow_lifecycle w hs "m1").2.2 up .noon mid .noon [] rfl hrecords ?_⟩
  rw [hoff]
  exact List.cons_ne_nil _ _

end World

end MetalPool
