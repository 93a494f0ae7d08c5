import MetalPool.Proofs.World.Run
/-!
# Failure streaks

`Consistent` ties the four fields of a status together. A round keeps it
(`Decides.consistent`), and so it holds of every record in every state that a
controller reaches from records of machines never seen (`reachable_consistent`).
-/

namespace MetalPool

open ServerStatus (transitionPhase thresholdMessage missingAddressMessage actionFailedMessage settled)

/-- The streak is within the threshold and has a start if it is not empty, there is none outside a
transition, and only a machine given up has a message. -/
structure ServerStatus.Consistent (threshold : UInt32) (s : ServerStatus) : Prop where
  count_le : s.failureCount ≤ threshold
  failing_iff : s.failingSince.isSome ↔ 0 < s.failureCount
  resting : s.Resting → s.failureCount = 0
  message_iff : s.message ≠ "" ↔ s.phase = some .failed

/-- The machine of the record was never seen. -/
def Server.Unseen (s : Server) : Prop := s.status = none ∨ s.status = some {}

/-- Nobody writes a status from outside, and records put in are of machines never seen. -/
def Step.Lawful : Step → Prop
  | .insert server => server.Unseen
  | .updateStatus .. => False
  | _ => True

namespace ServerStatus

variable {threshold : UInt32} {s : ServerStatus}

theorem consistent_default (threshold : UInt32) : ({} : ServerStatus).Consistent threshold where
  count_le := UInt32.zero_le
  failing_iff := by decide
  resting _ := rfl
  message_iff := by decide

theorem thresholdMessage_ne (count : UInt32) : thresholdMessage count ≠ "" := by
  unfold thresholdMessage
  simp

theorem actionFailedMessage_ne (e : ActionError) : actionFailedMessage e ≠ "" := by
  unfold actionFailedMessage
  simp

theorem Consistent.fail (h : s.Consistent threshold) {reason : String} (hr : reason ≠ "") :
    (s.fail reason).Consistent threshold where
  count_le := h.count_le
  failing_iff := h.failing_iff
  resting hrest := absurd rfl hrest.not_failed
  message_iff := by simp [ServerStatus.fail, hr]

theorem consistent_settled (reachable : Bool) :
    (settled (Phase.seen reachable)).Consistent threshold where
  count_le := UInt32.zero_le
  failing_iff := ⟨fun h => Bool.noConfusion h, fun h => absurd h (UInt32.lt_irrefl 0)⟩
  resting _ := rfl
  message_iff := by cases reachable <;> decide

/-- Below a threshold the count has room for one more failure. -/
theorem toNat_recordFailure (hlt : s.failureCount < threshold) (now : Timestamp) :
    (s.recordFailure now).failureCount.toNat = s.failureCount.toNat + 1 := by
  have hmax : s.failureCount.toNat + 1 < 4294967296 := by
    have := UInt32.lt_iff_toNat_lt.1 hlt
    have := threshold.toNat_lt
    omega
  have hne : s.failureCount ≠ 4294967295 := by
    intro he
    rw [he] at hmax
    exact absurd hmax (by decide)
  simp only [recordFailure, if_neg hne, UInt32.toNat_add, UInt32.toNat_one]
  exact Nat.mod_eq_of_lt hmax

theorem Consistent.recordFailure (h : s.Consistent threshold) {d : PowerState}
    (ht : s.phase = some (transitionPhase d)) (hlt : s.failureCount < threshold) (now : Timestamp) :
    (s.recordFailure now).Consistent threshold := by
  have hcount := toNat_recordFailure hlt now
  refine ⟨?_, ?_, ?_, ?_⟩
  · rw [UInt32.le_iff_toNat_le, hcount]
    exact UInt32.lt_iff_toNat_lt.1 hlt
  · rw [UInt32.lt_iff_toNat_lt, hcount]
    exact ⟨fun _ => Nat.succ_pos _, fun _ => rfl⟩
  · intro hrest
    exact absurd ht (hrest.ne_transition d)
  · exact h.message_iff

/-- A transition starts without failures, since the machine was in none before. -/
theorem Consistent.transition (h : s.Consistent threshold) (ht : s.Resting) (d : PowerState) :
    { s with phase := some (transitionPhase d), message := "" : ServerStatus }.Consistent threshold where
  count_le := h.count_le
  failing_iff := h.failing_iff
  resting _ := h.resting ht
  message_iff := by cases d <;> simp [transitionPhase]

theorem Consistent.seen (h : s.Consistent threshold) (ht : s.Resting) (reachable : Bool) :
    { s with phase := some (Phase.seen reachable) : ServerStatus }.Consistent threshold where
  count_le := h.count_le
  failing_iff := h.failing_iff
  resting _ := h.resting ht
  message_iff := by
    have hm : s.message = "" :=
      Decidable.not_not.1 fun hne => ht.not_failed (h.message_iff.1 hne)
    cases reachable <;> simp [Phase.seen, hm]

end ServerStatus

namespace World

variable {w : World} {name : String} {server : Server} {now : Timestamp} {r : Round}

/-- A round leaves the status of its record consistent. -/
theorem Decides.consistent (hd : w.Decides name server now r)
    (h : server.statusOrDefault.Consistent w.threshold) : r.status.Consistent w.threshold := by
  cases hd with
  | failed => exact h
  | frozen => exact h.fail (ServerStatus.thresholdMessage_ne _)
  | unaddressed => exact h.fail (by decide)
  | arrived => exact ServerStatus.consistent_settled _
  | waiting hp ht => exact h.recordFailure ht hp.below now
  | converged _ ht => exact h.seen ht _
  | unplanned => exact h.fail (ServerStatus.actionFailedMessage_ne _)
  | refused => exact h.fail (ServerStatus.actionFailedMessage_ne _)
  | commanded _ ht => exact h.transition ht _

end World

/-- The statuses of all records are consistent. -/
def Store.Consistent (threshold : UInt32) (s : Store) : Prop :=
  ∀ name server, s.get name = some server → server.statusOrDefault.Consistent threshold

theorem Server.Unseen.statusOrDefault {s : Server} (h : s.Unseen) : s.statusOrDefault = {} := by
  unfold Server.statusOrDefault
  rcases h with h | h <;> rw [h] <;> rfl

theorem Store.Consistent.insert {threshold : UInt32} {s : Store} (h : s.Consistent threshold)
    {server : Server} (hs : server.Unseen) : (s.insert server).Consistent threshold := by
  intro n other hg
  rw [Store.get_insert] at hg
  split at hg
  · cases hg
    rw [show (server.withVersion s.nextVersion).statusOrDefault = {} from hs.statusOrDefault]
    exact ServerStatus.consistent_default threshold
  · exact h n other hg

namespace World

variable {w : World} {threshold : UInt32}

theorem reconcile_consistent (h : w.store.Consistent w.threshold) (name : String) (now : Timestamp) :
    (w.reconcile name now).2.store.Consistent w.threshold := by
  intro n other hg
  cases hw : w.store.get name with
  | none =>
    rw [reconcile_of_none hw] at hg
    exact h n other hg
  | some server =>
    obtain ⟨r, hd, hs, -⟩ := reconcile_of_get hw now
    by_cases hn : n = name
    · subst hn
      rcases hs.get_self hw with hg' | ⟨-, -, hg'⟩ <;> rw [hg'] at hg <;> cases hg
      · exact h n _ hw
      · exact hd.consistent (h n _ hw)
    · rw [hs.get_of_ne hn] at hg
      exact h n other hg

theorem spared_consistent (h : w.store.Consistent threshold) {s : Step} (hs : s.SparesStatus) :
    (w.step s).2.store.Consistent threshold := by
  intro n other hg
  obtain ⟨server, hg', hv⟩ := Store.status_of_adapterView (step_adapterView hs).symm hg
  have hc := h n server hg'
  unfold Server.statusOrDefault at hc ⊢
  rwa [← Server.status_eq_of_adapterView hv]

/-- One step keeps the statuses consistent. -/
theorem step_consistent (h : w.store.Consistent w.threshold) {s : Step} (hs : s.Lawful) :
    (w.step s).2.store.Consistent w.threshold := by
  cases s with
  | reconcile name now => exact reconcile_consistent h name now.onClock
  | insert server => exact h.insert hs
  | updateStatus => cases hs
  | _ => exact spared_consistent h trivial

theorem start_consistent {servers : List Server} (hs : ∀ s ∈ servers, s.Unseen)
    (reachable : List String) (threshold : UInt32) (requeue : Span) :
    (start servers reachable threshold requeue).store.Consistent threshold := by
  have hfold : ∀ (l : List Server) (store : Store), (∀ s ∈ l, s.Unseen) → store.Consistent threshold →
      (l.foldl Store.insert store).Consistent threshold := by
    intro l
    induction l with
    | nil => intro store _ h; exact h
    | cons s rest ih =>
      intro store hl h
      exact ih _ (fun t ht => hl t (List.mem_cons_of_mem _ ht)) (h.insert (hl s List.mem_cons_self))
  refine hfold servers {} hs ?_
  intro n server hg
  cases hg

/-- In every state reached from records of machines never seen, the status of every record is
consistent. -/
theorem reachable_consistent {servers : List Server} (hservers : ∀ s ∈ servers, s.Unseen)
    (reachable : List String) (threshold : UInt32) (requeue : Span) {steps : List Step}
    (hsteps : ∀ s ∈ steps, s.Lawful) {name : String} {server : Server}
    (hg : ((start servers reachable threshold requeue).after steps).store.get name = some server) :
    server.statusOrDefault.Consistent threshold := by
  have hkeep : ∀ (w : World) (s : Step), w.store.Consistent threshold ∧ w.threshold = threshold →
      s.Lawful → (w.step s).2.store.Consistent threshold ∧ (w.step s).2.threshold = threshold := by
    rintro w s ⟨h, rfl⟩ hs
    exact ⟨step_consistent h hs, step_threshold w s⟩
  exact (after_inv hkeep hsteps ⟨start_consistent hservers reachable threshold requeue, rfl⟩).1
    name server hg

/-- A machine switched on that never answers, with a status write refused in between. -/
theorem reachable_consistent_asleep :
    let steps : List Step :=
      [.pool (.increaseSize Pool.groupId 1), .reconcile "m1" .noon, .reconcile "m1" .noon,
        .conflictNext "m1", .reconcile "m1" .noon, .reconcile "m1" .noon, .reconcile "m1" .noon]
    ∃ server, ((start [.asleep] [] 2 (.ofSeconds 60)).after steps).store.get "m1" = some server ∧
      server.statusOrDefault.phase = some .failed ∧ server.statusOrDefault.failureCount = 2 ∧
      server.statusOrDefault.Consistent 2 := by
  intro steps
  have hservers : ∀ s ∈ [Server.asleep], s.Unseen := by
    intro s hs
    rw [List.mem_singleton.1 hs]
    exact .inl rfl
  have hsteps : ∀ s ∈ steps, s.Lawful := by
    intro s hs
    simp only [steps, List.mem_cons, List.not_mem_nil, or_false] at hs
    rcases hs with rfl | rfl | rfl | rfl | rfl | rfl | rfl <;> trivial
  have hsome : (((start [.asleep] [] 2 (.ofSeconds 60)).after steps).store.get "m1").isSome := rfl
  have hg := (Option.some_get hsome).symm
  exact ⟨_, hg, rfl, rfl, reachable_consistent hservers [] 2 (.ofSeconds 60) hsteps hg⟩

end World

end MetalPool
