import MetalPool.Proofs.World.Command
import MetalPool.Proofs.World.Streak
/-!
# Having nothing to do

A reconciliation has nothing to do for a machine that is given up, and for one
whose record already says what the probe finds and what is desired. Every other
round ends with a status that the record does not have (`Decides.status_eq_iff`).

So a reconciliation either leaves store and machines alone or writes the status
once, and `idle_iff_nothing_to_do` says which.
-/

namespace MetalPool

open ServerStatus (transitionPhase)

namespace ServerStatus

theorem with_phase_eq_iff (s : ServerStatus) (phase : Option Phase) :
    { s with phase := phase } = s ↔ s.phase = phase := by
  obtain ⟨phase', message, failingSince, failureCount⟩ := s
  simp [eq_comm]

theorem recordFailure_ne {s : ServerStatus} {threshold : UInt32} (h : s.failureCount < threshold)
    (now : Timestamp) : s.recordFailure now ≠ s := by
  intro he
  have hcount := toNat_recordFailure h now
  rw [he] at hcount
  omega

end ServerStatus

namespace World

/-- A reconciliation has nothing to do for `server`: its machine is given up, or it is as desired and the
record says so. -/
inductive NothingToDo (w : World) (server : Server) : Prop where
  | gaveUp (hf : server.statusOrDefault.phase = some .failed)
  | active {address : String} (hlt : server.statusOrDefault.failureCount < w.threshold)
    (ha : server.spec.address? = some address) (ht : server.statusOrDefault.phase = some .active)
    (hr : w.plant.isReachable address = true) (hd : server.spec.desired = .on)
  | offline {address : String} (hlt : server.statusOrDefault.failureCount < w.threshold)
    (ha : server.spec.address? = some address) (ht : server.statusOrDefault.phase = some .offline)
    (hr : w.plant.isReachable address = false) (hd : server.spec.desired = .off)

variable {w : World} {name : String} {server : Server} {now : Timestamp} {r : Round} {address : String}

/-! ## One round -/

/-- Of a machine that is not given up, the record says what is found and desired. -/
theorem NothingToDo.of_not_failed (h : w.NothingToDo server)
    (hf : server.statusOrDefault.phase ≠ some .failed) :
    ∃ address, w.Probes server address ∧ w.plant.isReachable address = server.spec.desired.isOn ∧
      server.statusOrDefault.phase = some (Phase.seen server.spec.desired.isOn) := by
  cases h with
  | gaveUp h => exact absurd h hf
  | active hlt ha ht hr hd => exact ⟨_, ⟨hf, hlt, ha⟩, by rw [hr, hd]; rfl, by rw [ht, hd]; rfl⟩
  | offline hlt ha ht hr hd => exact ⟨_, ⟨hf, hlt, ha⟩, by rw [hr, hd]; rfl, by rw [ht, hd]; rfl⟩

theorem Probes.nothingToDo (hp : w.Probes server address)
    (hr : w.plant.isReachable address = server.spec.desired.isOn)
    (ht : server.statusOrDefault.phase = some (Phase.seen server.spec.desired.isOn)) :
    w.NothingToDo server := by
  cases hd : server.spec.desired with
  | on => rw [hd] at hr ht; exact .active hp.below hp.address_eq ht hr hd
  | off => rw [hd] at hr ht; exact .offline hp.below hp.address_eq ht hr hd

/-- A machine in transition is in none of the phases of one that is left alone. -/
theorem not_nothingToDo_of_transition {d : PowerState}
    (ht : server.statusOrDefault.phase = some (transitionPhase d)) : ¬w.NothingToDo server := by
  intro h
  obtain ⟨_, -, -, hseen⟩ := h.of_not_failed (ServerStatus.not_failed_of_transition ht)
  rw [ht] at hseen
  cases d <;> cases hd : server.spec.desired <;> rw [hd] at hseen <;> cases hseen

theorem Probes.not_nothingToDo (hp : w.Probes server address)
    (hr : w.plant.isReachable address ≠ server.spec.desired.isOn) : ¬w.NothingToDo server := by
  intro h
  obtain ⟨address', hp', hr', -⟩ := h.of_not_failed hp.not_failed
  have hsame : address' = address := Option.some.inj (hp'.address_eq.symm.trans hp.address_eq)
  exact hr (hsame ▸ hr')

/-- A round ends with the status that it began with exactly when it has nothing to do. -/
theorem Decides.status_eq_iff (hd : w.Decides name server now r) :
    r.status = server.statusOrDefault ↔ w.NothingToDo server := by
  cases hd with
  | failed hf => exact iff_of_true rfl (.gaveUp hf)
  | frozen hf hc =>
    refine iff_of_false (ServerStatus.fail_ne hf _) fun h => ?_
    obtain ⟨_, hp, -⟩ := h.of_not_failed hf
    exact UInt32.not_lt.2 hc hp.below
  | unaddressed hf hc ha =>
    refine iff_of_false (ServerStatus.fail_ne hf _) fun h => ?_
    obtain ⟨_, hp, -⟩ := h.of_not_failed hf
    rw [hp.address_eq] at ha
    cases ha
  | arrived hp ht hr =>
    refine iff_of_false (fun he => ?_) (not_nothingToDo_of_transition ht)
    exact (ServerStatus.resting_settled _).ne_transition _ (he ▸ ht)
  | waiting hp ht hr =>
    exact iff_of_false (ServerStatus.recordFailure_ne hp.below _) (not_nothingToDo_of_transition ht)
  | converged hp ht hr =>
    refine (ServerStatus.with_phase_eq_iff _ _).trans ⟨hp.nothingToDo hr, fun h => ?_⟩
    obtain ⟨_, -, -, hseen⟩ := h.of_not_failed hp.not_failed
    exact hseen
  | unplanned hp ht hr | refused hp ht hr =>
    exact iff_of_false (ServerStatus.fail_ne ht.not_failed _) (hp.not_nothingToDo hr)
  | commanded hp ht hr =>
    refine iff_of_false (fun he => ?_) (hp.not_nothingToDo hr)
    exact ht.ne_transition _ (congrArg ServerStatus.phase he).symm

theorem Decides.command_of_nothingToDo (hd : w.Decides name server now r) (h : w.NothingToDo server) :
    r.command = none := by
  cases hd with
  | refused hp _ hr | commanded hp _ hr => exact absurd h (hp.not_nothingToDo hr)
  | _ => rfl

/-! ## Main theorem -/

/-- A reconciliation of `name` leaves the store as it is and makes no call to a backend. -/
def LeavesAlone (w : World) (name : String) (now : Timestamp) : Prop :=
  (w.reconcile name now).2.store = w.store ∧
    ((w.reconcile name now).2.plant.callsSince w.plant).powerCalls = []

instance : Decidable (w.LeavesAlone name now) := inferInstanceAs (Decidable (_ ∧ _))

theorem leavesAlone_of_none (hg : w.store.get name = none) (now : Timestamp) : w.LeavesAlone name now :=
  ⟨by rw [reconcile_of_none hg], reconcile_calls_of_none hg now⟩

theorem leavesAlone_of_nothingToDo (hg : w.store.get name = some server) (h : w.NothingToDo server)
    (now : Timestamp) : w.LeavesAlone name now := by
  obtain ⟨r, hd, hs, hcalls, -⟩ := reconcile_round hg now
  have he : r.status = server.statusOrDefault := hd.status_eq_iff.2 h
  refine ⟨?_, by rw [hcalls, hd.command_of_nothingToDo h]; rfl⟩
  generalize (w.reconcile name now).1 = result, (w.reconcile name now).2.store = store at hs
  cases hs with
  | unchanged => rfl
  | conflict hne | stored hne => exact absurd he hne

/-- Every other round is written, when no conflict is pending for the name. -/
theorem commit_of_not_nothingToDo (hc : name ∉ w.store.conflicts)
    (hg : w.store.get name = some server) (h : ¬w.NothingToDo server) (now : Timestamp) :
    ∃ status, status ≠ server.statusOrDefault ∧
      (w.reconcile name now).2.store = w.store.commit name (server.withStatus status) := by
  obtain ⟨r, hd, hs, -⟩ := reconcile_round hg now
  generalize (w.reconcile name now).1 = result, (w.reconcile name now).2.store = store at hs
  cases hs with
  | unchanged he => exact absurd (hd.status_eq_iff.1 he) h
  | conflict _ hm => exact absurd hm hc
  | stored hne => exact ⟨r.status, hne, rfl⟩

theorem LeavesAlone.store_ne_commit (h : w.LeavesAlone name now) (name' : String) (server : Server) :
    (w.reconcile name now).2.store ≠ w.store.commit name' server := by
  rw [h.1]
  intro he
  exact Nat.succ_ne_self w.store.writes (congrArg Store.writes he).symm

/-- A reconciliation with a store that accepts its write, whatever the backends do. It leaves both alone
exactly when there is no record or nothing to do for it; in every other case it writes the status once,
and that is another status than the one it read. -/
theorem idle_iff_nothing_to_do (w : World) (name : String) (now : Timestamp)
    (hc : name ∉ w.store.conflicts) :
    (w.LeavesAlone name now ↔ ∀ server, w.store.get name = some server → w.NothingToDo server) ∧
    (¬w.LeavesAlone name now → ∃ server status, w.store.get name = some server ∧
      status ≠ server.statusOrDefault ∧
      (w.reconcile name now).2.store = w.store.commit name (server.withStatus status)) := by
  by_cases h : ∀ server, w.store.get name = some server → w.NothingToDo server
  · have halone : w.LeavesAlone name now := by
      rcases hg : w.store.get name with _ | server
      · exact leavesAlone_of_none hg now
      · exact leavesAlone_of_nothingToDo hg (h server hg) now
    exact ⟨iff_of_true halone h, fun hn => absurd halone hn⟩
  · have hfound : ∃ server, w.store.get name = some server ∧ ¬w.NothingToDo server := by
      simpa only [Classical.not_forall, exists_prop] using h
    obtain ⟨server, hg, hnot⟩ := hfound
    obtain ⟨status, hne, hstore⟩ := commit_of_not_nothingToDo hc hg hnot now
    refine ⟨iff_of_false (fun halone => halone.store_ne_commit _ _ hstore) h, fun _ => ?_⟩
    exact ⟨server, status, hg, hne, hstore⟩

/-- A machine that is to be off is seen to be, and that is written once; after that there is nothing to do
until somebody wants it on. -/
theorem idle_iff_nothing_to_do_asleep :
    let w := start [.asleep] [] 3 (.ofSeconds 60)
    let seen := (w.reconcile "m1" .noon).2
    let wanted := (seen.step (.updatePowerState "m1" none .on)).2
    "m1" ∉ w.store.conflicts ∧
      (∃ server status, w.store.get "m1" = some server ∧ status ≠ server.statusOrDefault ∧
        seen.store = w.store.commit "m1" (server.withStatus status)) ∧
      (∀ server, seen.store.get "m1" = some server → seen.NothingToDo server) ∧
      ¬∀ server, wanted.store.get "m1" = some server → wanted.NothingToDo server := by
  intro w seen wanted
  have hc : ∀ v ∈ [w, seen, wanted], "m1" ∉ v.store.conflicts := by decide +kernel
  refine ⟨hc w (by simp), (idle_iff_nothing_to_do w "m1" .noon (hc w (by simp))).2 ?_,
    (idle_iff_nothing_to_do seen "m1" .noon (hc seen (by simp))).1.1 ?_,
    mt (idle_iff_nothing_to_do wanted "m1" .noon (hc wanted (by simp))).1.2 ?_⟩
  · decide +kernel
  · exact ⟨rfl, rfl⟩
  · decide +kernel

end World

end MetalPool
