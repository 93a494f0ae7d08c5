import MetalPool.Proofs.World.Streak
/-!
# The count of failures

A reconciliation raises the count of its record by one or not at all, and asks
to come back where it does (`reconcile_failures`). Nothing else raises it, unless
somebody writes the status of that record (`step_failures`).
-/

namespace MetalPool

/-- The step is no reconciliation of the record called `name`, and nobody puts it in or writes its
status from outside. -/
def Step.SparesStatusOf (name : String) : Step → Prop
  | .reconcile n _ => n ≠ name
  | .insert server => server.name ≠ name
  | .updateStatus n _ _ => n ≠ name
  | _ => True

namespace World

/-- The failures in a row of the record called `name`, none if there is no record. -/
def failures (w : World) (name : String) : UInt32 :=
  ((w.store.get name).map (·.statusOrDefault.failureCount)).getD 0

variable {w : World} {name : String} {server : Server} {now : Timestamp} {r : Round} {s : Step}

theorem failures_of_get (hg : w.store.get name = some server) :
    w.failures name = server.statusOrDefault.failureCount := by
  unfold failures
  rw [hg]
  rfl

/-- A round raises the count by one and asks to come back, or it does not raise it. -/
theorem Decides.failureCount (hd : w.Decides name server now r) :
    r.status.failureCount.toNat ≤ server.statusOrDefault.failureCount.toNat ∨
      (r.result = .ok (some w.requeue) ∧
        r.status.failureCount.toNat = server.statusOrDefault.failureCount.toNat + 1) := by
  cases hd with
  | waiting hp => exact .inr ⟨rfl, ServerStatus.toNat_recordFailure hp.below now⟩
  | arrived => exact .inl (Nat.zero_le _)
  | _ => exact .inl (Nat.le_refl _)

theorem reconcile_failures (w : World) (name : String) (now : Timestamp) :
    ((w.reconcile name now).2.failures name).toNat ≤ (w.failures name).toNat ∨
      ((w.reconcile name now).1 = .ok (some w.requeue) ∧
        ((w.reconcile name now).2.failures name).toNat = (w.failures name).toNat + 1) := by
  cases hg : w.store.get name with
  | none =>
    rw [reconcile_of_none hg]
    exact .inl (Nat.le_refl _)
  | some server =>
    obtain ⟨r, hd, -, ⟨-, hspent⟩ | hc⟩ := reconcile_cases hg now
    · have hsame : (w.reconcile name now).2.failures name = w.failures name := by
        unfold failures
        rw [hspent, Store.get_spend]
      rw [hsame]
      exact .inl (Nat.le_refl _)
    · obtain ⟨new, hnew, -, hst⟩ := hc.found
      rw [failures_of_get hg, failures_of_get hnew, hst, hc.result_eq]
      exact hd.failureCount

theorem failures_of_sparesStatus (h : s.SparesStatus) :
    (w.step s).2.failures name = w.failures name := by
  have hview : ∀ u : World, u.failures name =
      ((u.store.adapterView name).map (·.statusOrDefault.failureCount)).getD 0 := by
    intro u
    unfold failures Store.adapterView
    cases u.store.get name <;> rfl
  rw [hview, hview, step_adapterView h]

/-- A step that leaves the status of a record alone leaves its count. -/
theorem step_failures (h : s.SparesStatusOf name) : (w.step s).2.failures name = w.failures name := by
  cases s with
  | reconcile n now =>
    exact congrArg (fun g => ((Option.map (·.statusOrDefault.failureCount) g).getD 0))
      (reconcile_get_of_ne (Ne.symm h) now.onClock)
  | insert server =>
    unfold failures
    rw [show (w.step (.insert server)).2.store = w.store.insert server from rfl, Store.get_insert,
      if_neg (Ne.symm h)]
  | updateStatus n version status =>
    unfold failures
    rcases Store.get_write w.store n version (·.withStatus status) with hw | ⟨_, -, hw⟩
    · rw [show (w.step (.updateStatus n version status)).2.store.get name = _ from hw name]
    · rw [show (w.step (.updateStatus n version status)).2.store.get name = _ from hw name,
        if_neg (Ne.symm h)]
  | _ => exact failures_of_sparesStatus trivial

end World

end MetalPool
