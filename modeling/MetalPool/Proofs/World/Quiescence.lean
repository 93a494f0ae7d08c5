import MetalPool.Proofs.World.Command
import MetalPool.Proofs.World.Streak
/-!
# Coming to rest

A record that is reconciled again and again, while nobody changes what it
desires and its machine answers or not as before, comes to rest. `Stage` says
how many rounds that may take and how many commands. A round goes at least one
stage on (`Decides.next_stage`), and so do the rounds of `retry`, of which
`retry_comes_to_rest` speaks.
-/

namespace MetalPool

open ServerStatus (transitionPhase settled)

/-- The record would not be probed: its streak is at the threshold, or it says no address. -/
def ServerStatus.Hopeless (threshold : UInt32) (spec : ServerSpec) (s : ServerStatus) : Prop :=
  threshold ≤ s.failureCount ∨ spec.address? = none

/-- How far a status is from rest: the rounds and the commands that may still come, where the machine
answers or not. -/
inductive Stage (threshold : UInt32) (spec : ServerSpec) (reachable : Bool) (s : ServerStatus) :
    Nat → Nat → Prop where
  | gaveUp (hf : s.phase = some .failed) : Stage threshold spec reachable s 0 0
  | converged (hc : ¬s.Hopeless threshold spec) (ht : s.phase = some (Phase.seen reachable))
    (hr : reachable = spec.desired.isOn) : Stage threshold spec reachable s 0 0
  | hopeless (hf : s.phase ≠ some .failed) (hc : s.Hopeless threshold spec) :
    Stage threshold spec reachable s 1 0
  /-- As desired, which the phase may not say yet. -/
  | asDesired (hc : ¬s.Hopeless threshold spec) (ht : s.Resting) (hr : reachable = spec.desired.isOn) :
    Stage threshold spec reachable s 1 0
  /-- In a transition that does not end. -/
  | away {d : PowerState} (hc : ¬s.Hopeless threshold spec) (ht : s.phase = some (transitionPhase d))
    (hr : reachable ≠ d.isOn) :
    Stage threshold spec reachable s (threshold.toNat - s.failureCount.toNat + 1) 0
  /-- Not as desired: a command, and then the transition that does not end. -/
  | astray (hc : ¬s.Hopeless threshold spec) (ht : s.Resting) (hr : reachable ≠ spec.desired.isOn) :
    Stage threshold spec reachable s (threshold.toNat - s.failureCount.toNat + 2) 1
  /-- At the end of a transition to where the machine should be. -/
  | arrived {d : PowerState} (hc : ¬s.Hopeless threshold spec)
    (ht : s.phase = some (transitionPhase d)) (hr : reachable = d.isOn)
    (hdesired : reachable = spec.desired.isOn) : Stage threshold spec reachable s 1 0
  /-- At the end of the opposite transition. -/
  | arrivedAstray {d : PowerState} (hc : ¬s.Hopeless threshold spec)
    (ht : s.phase = some (transitionPhase d)) (hr : reachable = d.isOn)
    (hdesired : reachable ≠ spec.desired.isOn) :
    Stage threshold spec reachable s (threshold.toNat + 3) 1

/-- In the last stage the machine is given up, or it is as desired and the phase says so. -/
theorem Stage.rest {threshold : UInt32} {spec : ServerSpec} {reachable : Bool} {s : ServerStatus} {m : Nat}
    (h : Stage threshold spec reachable s 0 m) :
    s.phase = some .failed ∨
      ¬s.Hopeless threshold spec ∧ s.phase = some (Phase.seen reachable) ∧
        reachable = spec.desired.isOn := by
  generalize hn : 0 = n at h
  cases h with
  | gaveUp hf => exact .inl hf
  | converged hc ht hr => exact .inr ⟨hc, ht, hr⟩
  | _ => omega

/-- The circumstances of one reconciliation: its time, and which backends fail and how. -/
structure Attempt where
  now : Timestamp
  wakeFailure : Option String := none
  shutdownFailure : Option String := none
  bmcFailure : Option String := none

namespace World

/-- The world in the circumstances of an attempt. -/
def under (w : World) (a : Attempt) : World :=
  { w with
    plant :=
      { w.plant with
        wakeFailure := a.wakeFailure
        shutdownFailure := a.shutdownFailure
        bmcFailure := a.bmcFailure } }

def attempt (w : World) (name : String) (a : Attempt) : World := ((w.under a).reconcile name a.now).2

/-- The world after attempts to reconcile the record called `name`, one after the other. -/
def retry (w : World) (name : String) (attempts : List Attempt) : World :=
  attempts.foldl (fun w a => w.attempt name a) w

/-- The store refuses no status that is written in the attempts. -/
def Accepts (w : World) (name : String) : List Attempt → Prop
  | [] => True
  | a :: rest => (w.under a).Accepted name a.now ∧ (w.attempt name a).Accepts name rest

/-- The record called `name` desires what `spec` says, its machine answers or not, and its status is in
the stage of `n` rounds and `m` commands. -/
structure InStage (w : World) (name : String) (spec : ServerSpec) (reachable : Bool) (n m : Nat) :
    Prop where
  found : ∃ server, w.store.get name = some server ∧ server.spec = spec ∧
    Stage w.threshold spec reachable server.statusOrDefault n m
  answers : ∀ address, spec.address? = some address → w.plant.isReachable address = reachable

/-- No record is touched on the way to the later world, and no call to a backend is made. -/
structure Undisturbed (w later : World) : Prop where
  store_eq : later.store = w.store
  wakes_eq : later.plant.wakes = w.plant.wakes
  shutdowns_eq : later.plant.shutdowns = w.plant.shutdowns
  bmcCalls_eq : later.plant.bmcCalls = w.plant.bmcCalls

/-- The machine is given up, or it is as its record desires and the record says so. -/
def AtRest (w : World) (server : Server) : Prop :=
  server.statusOrDefault.phase = some .failed ∨
    ∃ address, server.spec.address? = some address ∧
      ((server.statusOrDefault.phase = some .active ∧ w.plant.isReachable address = true ∧
          server.spec.desired = .on) ∨
        (server.statusOrDefault.phase = some .offline ∧ w.plant.isReachable address = false ∧
          server.spec.desired = .off))

variable {w later : World} {name : String} {server : Server} {now : Timestamp} {r : Round} {a : Attempt}
  {threshold : UInt32} {spec : ServerSpec} {reachable : Bool} {n m : Nat}

/-! ## One round -/

/-- Every status is in some stage. -/
theorem exists_stage (threshold : UInt32) (spec : ServerSpec) (reachable : Bool) (s : ServerStatus) :
    ∃ n m, Stage threshold spec reachable s n m ∧ n ≤ threshold.toNat + 3 ∧ m ≤ 1 := by
  by_cases hf : s.phase = some .failed
  · exact ⟨0, 0, .gaveUp hf, by omega, by omega⟩
  by_cases hc : s.Hopeless threshold spec
  · exact ⟨1, 0, .hopeless hf hc, by omega, by omega⟩
  rcases s.resting_or with hf' | ht | ⟨d, ht⟩
  · exact absurd hf' hf
  · by_cases hr : reachable = spec.desired.isOn
    · exact ⟨1, 0, .asDesired hc ht hr, by omega, by omega⟩
    · exact ⟨_, 1, .astray hc ht hr, by omega, by omega⟩
  · by_cases hr : reachable = d.isOn
    · by_cases hdesired : reachable = spec.desired.isOn
      · exact ⟨1, 0, .arrived hc ht hr hdesired, by omega, by omega⟩
      · exact ⟨_, 1, .arrivedAstray hc ht hr hdesired, by omega, by omega⟩
    · exact ⟨_, 0, .away hc ht hr, by omega, by omega⟩

theorem probes_of_not_hopeless (hc : ¬server.statusOrDefault.Hopeless w.threshold server.spec)
    (hf : server.statusOrDefault.phase ≠ some .failed) : ∃ address, w.Probes server address := by
  obtain ⟨hlt, ha⟩ := not_or.1 hc
  obtain ⟨address, ha⟩ := Option.ne_none_iff_exists'.1 ha
  exact ⟨address, hf, UInt32.not_le.1 hlt, ha⟩

theorem Probes.not_hopeless {address : String} (hp : w.Probes server address) {s : ServerStatus}
    (hlt : s.failureCount < w.threshold) : ¬s.Hopeless w.threshold server.spec := by
  rintro (hc | ha)
  · exact UInt32.not_lt.2 hc hlt
  · rw [hp.address_eq] at ha
    cases ha

theorem Probes.zero_lt {address : String} (hp : w.Probes server address) : 0 < w.threshold :=
  UInt32.lt_of_le_of_lt UInt32.zero_le hp.below

/-- A round at rest changes nothing and commands nothing. -/
theorem Decides.of_rest (hd : w.Decides name server now r)
    (hreach : ∀ a, server.spec.address? = some a → w.plant.isReachable a = reachable)
    (h : Stage w.threshold server.spec reachable server.statusOrDefault 0 m) :
    r.status = server.statusOrDefault ∧ r.command = none := by
  rcases h.rest with hf | ⟨hc, ht, hr⟩
  · obtain rfl := hd.of_gaveUp hf
    exact ⟨rfl, rfl⟩
  · have hrest : server.statusOrDefault.Resting := by
      unfold ServerStatus.Resting
      rw [ht]
      cases reachable <;> decide
    obtain ⟨address, hp⟩ := probes_of_not_hopeless hc hrest.not_failed
    rcases hd.of_resting hp hrest with ⟨-, rfl⟩ | ⟨hr', -⟩
    · refine ⟨?_, rfl⟩
      rw [← hr]
      generalize server.statusOrDefault = s at ht ⊢
      obtain ⟨phase, message, failingSince, failureCount⟩ := s
      cases ht
      rfl
    · exact absurd ((hreach address hp.address_eq).trans hr) hr'

/-- A round goes at least one stage on, at the expense of the commands that may still come. -/
theorem Decides.next_stage (hd : w.Decides name server now r)
    (hreach : ∀ a, server.spec.address? = some a → w.plant.isReachable a = reachable)
    (h : Stage w.threshold server.spec reachable server.statusOrDefault n m) :
    ∃ n' m', Stage w.threshold server.spec reachable r.status n' m' ∧ n' ≤ n - 1 ∧
      r.command.toList.length + m' ≤ m := by
  have hfailed : ∀ (reason : String), Stage w.threshold server.spec reachable
      (server.statusOrDefault.fail reason) 0 0 := fun _ => .gaveUp rfl
  cases h with
  | gaveUp hf =>
    obtain ⟨hst, hcommand⟩ := hd.of_rest hreach (.gaveUp hf)
    rw [hst, hcommand]
    exact ⟨0, 0, .gaveUp hf, Nat.le_refl _, Nat.le_refl _⟩
  | converged hc ht hr =>
    obtain ⟨hst, hcommand⟩ := hd.of_rest hreach (.converged hc ht hr)
    rw [hst, hcommand]
    exact ⟨0, 0, .converged hc ht hr, Nat.le_refl _, Nat.le_refl _⟩
  | hopeless hf hc =>
    by_cases hle : w.threshold ≤ server.statusOrDefault.failureCount
    · obtain rfl := hd.of_threshold hf hle
      exact ⟨0, 0, hfailed _, Nat.le_refl _, Nat.le_refl _⟩
    · obtain rfl := hd.of_unaddressed hf (UInt32.not_le.1 hle) (hc.resolve_left hle)
      exact ⟨0, 0, hfailed _, Nat.le_refl _, Nat.le_refl _⟩
  | asDesired hc ht hr =>
    obtain ⟨address, hp⟩ := probes_of_not_hopeless hc ht.not_failed
    rcases hd.of_resting hp ht with ⟨-, rfl⟩ | ⟨hr', -⟩
    · exact ⟨0, 0, .converged (hp.not_hopeless hp.below) (by rw [hr]) hr, Nat.le_refl _, Nat.le_refl _⟩
    · exact absurd ((hreach address hp.address_eq).trans hr) hr'
  | away hc ht hr =>
    obtain ⟨address, hp⟩ := probes_of_not_hopeless hc (ServerStatus.not_failed_of_transition ht)
    rcases hd.of_transition hp ht with ⟨hr', -⟩ | ⟨-, rfl⟩
    · exact absurd ((hreach address hp.address_eq).symm.trans hr') hr
    · -- The failure counts, which leaves one less until the threshold.
      have hcount := ServerStatus.toNat_recordFailure hp.below now
      have hlt := UInt32.lt_iff_toNat_lt.1 hp.below
      by_cases hle : w.threshold ≤ (server.statusOrDefault.recordFailure now).failureCount
      · refine ⟨1, 0, .hopeless (ServerStatus.not_failed_of_transition ht) (.inl hle), ?_, Nat.le_refl _⟩
        omega
      · refine ⟨_, 0, .away (hp.not_hopeless (UInt32.not_le.1 hle)) ht hr, ?_, Nat.le_refl _⟩
        rw [hcount]
        omega
  | astray hc ht hr =>
    obtain ⟨address, hp⟩ := probes_of_not_hopeless hc ht.not_failed
    rcases hd.of_resting hp ht with ⟨hr', -⟩ | ⟨-, hact⟩
    · exact absurd ((hreach address hp.address_eq).symm.trans hr') hr
    · rcases hact with ⟨e, -, rfl⟩ | ⟨command, e, -, -, rfl⟩ | ⟨command, -, -, rfl⟩
      · exact ⟨0, 0, hfailed _, Nat.zero_le _, Nat.zero_le _⟩
      · exact ⟨0, 0, hfailed _, Nat.zero_le _, Nat.le_refl _⟩
      · exact ⟨_, 0, .away hc rfl hr, Nat.le_refl _, Nat.le_refl _⟩
  | arrived hc ht hr hdesired =>
    obtain ⟨address, hp⟩ := probes_of_not_hopeless hc (ServerStatus.not_failed_of_transition ht)
    rcases hd.of_transition hp ht with ⟨-, rfl⟩ | ⟨hr', -⟩
    · refine ⟨0, 0, .converged (hp.not_hopeless hp.zero_lt) ?_ hdesired, Nat.le_refl _, Nat.le_refl _⟩
      rw [hr]
      rfl
    · exact absurd ((hreach address hp.address_eq).trans hr) hr'
  | arrivedAstray hc ht hr hdesired =>
    obtain ⟨address, hp⟩ := probes_of_not_hopeless hc (ServerStatus.not_failed_of_transition ht)
    rcases hd.of_transition hp ht with ⟨-, rfl⟩ | ⟨hr', -⟩
    · -- The streak is forgotten, so all of the threshold is still to come.
      exact ⟨_, 1, .astray (hp.not_hopeless hp.zero_lt) (ServerStatus.resting_settled _) hdesired,
        Nat.le_refl _, Nat.le_refl _⟩
    · exact absurd ((hreach address hp.address_eq).trans hr) hr'

/-! ## Attempts -/

theorem length_powerCalls_execute (p : Plant) (command : PowerCommand) :
    (p.execute command).2.powerCalls.length = p.powerCalls.length + 1 := by
  obtain ⟨powered, he⟩ := p.execute_note command
  rw [he]
  cases command.call <;> simp [Plant.note, Plant.powerCalls] <;> omega

theorem length_powerCalls_carry (w : World) (r : Round) :
    (w.carry r).plant.powerCalls.length = w.plant.powerCalls.length + r.command.toList.length := by
  obtain ⟨probed, command, status, result⟩ := r
  cases command with
  | none => cases probed <;> rfl
  | some command => cases probed <;> exact length_powerCalls_execute _ command

theorem reachable_execute (p : Plant) (command : PowerCommand) :
    (p.execute command).2.reachable = p.reachable := by
  obtain ⟨powered, he⟩ := p.execute_note command
  rw [he]
  cases command.call <;> rfl

/-- A reconciliation does not tell machines to answer. -/
theorem reachable_carry (w : World) (r : Round) : (w.carry r).plant.reachable = w.plant.reachable := by
  obtain ⟨probed, command, status, result⟩ := r
  cases command with
  | none => cases probed <;> rfl
  | some command => cases probed <;> exact reachable_execute _ command

theorem Undisturbed.refl (w : World) : w.Undisturbed w := ⟨rfl, rfl, rfl, rfl⟩

theorem Undisturbed.trans {last : World} (h : w.Undisturbed later) (h' : later.Undisturbed last) :
    w.Undisturbed last where
  store_eq := h'.store_eq.trans h.store_eq
  wakes_eq := h'.wakes_eq.trans h.wakes_eq
  shutdowns_eq := h'.shutdowns_eq.trans h.shutdowns_eq
  bmcCalls_eq := h'.bmcCalls_eq.trans h.bmcCalls_eq

/-- An attempt goes at least one stage on. -/
theorem InStage.attempt (h : w.InStage name spec reachable n m)
    (haccepted : (w.under a).Accepted name a.now) :
    ∃ n' m', (w.attempt name a).InStage name spec reachable n' m' ∧ n' ≤ n - 1 ∧
      (w.attempt name a).plant.powerCalls.length + m' ≤ w.plant.powerCalls.length + m := by
  obtain ⟨server, hg, rfl, hstage⟩ := h.found
  have hg' : (w.under a).store.get name = some server := hg
  obtain ⟨r, hd, hplant, hc⟩ := haccepted.round hg'
  obtain ⟨n', m', hstage', hn, hm⟩ := hd.next_stage h.answers hstage
  obtain ⟨new, hnew, hspec, hst⟩ := hc.found
  have hthreshold : (w.attempt name a).threshold = w.threshold :=
    reconcile_threshold (w.under a) name a.now
  have hcalls : (w.attempt name a).plant.powerCalls.length =
      w.plant.powerCalls.length + r.command.toList.length := by
    unfold World.attempt
    rw [hplant]
    exact length_powerCalls_carry (w.under a) r
  have hanswers : (w.attempt name a).plant.reachable = w.plant.reachable := by
    unfold World.attempt
    rw [hplant]
    exact reachable_carry (w.under a) r
  refine ⟨n', m', ⟨⟨new, hnew, hspec, ?_⟩, ?_⟩, hn, by omega⟩
  · rw [hthreshold, hst]
    exact hstage'
  · intro address ha
    unfold Plant.isReachable
    rw [hanswers]
    exact h.answers address ha

theorem InStage.retry {attempts : List Attempt} (h : w.InStage name spec reachable n m)
    (haccepted : w.Accepts name attempts) :
    ∃ n' m', (w.retry name attempts).InStage name spec reachable n' m' ∧ n' ≤ n - attempts.length ∧
      (w.retry name attempts).plant.powerCalls.length + m' ≤ w.plant.powerCalls.length + m := by
  induction attempts generalizing w n m with
  | nil => exact ⟨n, m, h, Nat.le_refl _, Nat.le_refl _⟩
  | cons a rest ih =>
    obtain ⟨n₁, m₁, h₁, hn₁, hm₁⟩ := h.attempt haccepted.1
    obtain ⟨n', m', h', hn, hm⟩ := ih h₁ haccepted.2
    refine ⟨n', m', h', ?_, Nat.le_trans hm hm₁⟩
    rw [List.length_cons]
    omega

/-- At rest an attempt does not need the store to accept a status, since it writes none. -/
theorem InStage.attempt_at_rest (h : w.InStage name spec reachable 0 m) (a : Attempt) :
    w.Undisturbed (w.attempt name a) ∧ (w.attempt name a).InStage name spec reachable 0 m := by
  obtain ⟨server, hg, rfl, hstage⟩ := h.found
  have hg' : (w.under a).store.get name = some server := hg
  obtain ⟨r, hd, hs, hplant⟩ := reconcile_of_get hg' a.now
  obtain ⟨hst, hcommand⟩ := hd.of_rest h.answers hstage
  have hstore : (w.attempt name a).store = w.store := by
    unfold World.attempt
    generalize ((w.under a).reconcile name a.now).1 = result at hs
    generalize ((w.under a).reconcile name a.now).2.store = store at hs ⊢
    cases hs with
    | unchanged => rfl
    | conflict hne | stored hne => exact absurd hst hne
  obtain ⟨probed, command, status, result⟩ := r
  cases hcommand
  have hundisturbed : w.Undisturbed (w.attempt name a) := by
    unfold World.attempt at hstore ⊢
    refine ⟨hstore, ?_, ?_, ?_⟩ <;> rw [hplant] <;> cases probed <;> rfl
  refine ⟨hundisturbed, ⟨server, hstore ▸ hg, rfl, ?_⟩, ?_⟩
  · unfold World.attempt
    rw [reconcile_threshold]
    exact hstage
  · intro address ha
    unfold World.attempt Plant.isReachable
    rw [hplant, reachable_carry]
    exact h.answers address ha

theorem InStage.retry_at_rest (h : w.InStage name spec reachable 0 m) (attempts : List Attempt) :
    w.Undisturbed (w.retry name attempts) := by
  induction attempts generalizing w with
  | nil => exact .refl w
  | cons a rest ih =>
    obtain ⟨hsame, hstage⟩ := h.attempt_at_rest a
    exact hsame.trans (ih hstage)

theorem InStage.at_rest (h : w.InStage name spec reachable 0 m) :
    ∃ server, w.store.get name = some server ∧ server.spec = spec ∧ w.AtRest server := by
  obtain ⟨server, hg, rfl, hstage⟩ := h.found
  refine ⟨server, hg, rfl, ?_⟩
  rcases hstage.rest with hf | ⟨hc, ht, hr⟩
  · exact .inl hf
  · obtain ⟨address, ha⟩ := Option.ne_none_iff_exists'.1 (not_or.1 hc).2
    have hanswers := h.answers address ha
    refine .inr ⟨address, ha, ?_⟩
    cases hdesired : server.spec.desired <;> rw [hdesired] at hr <;> subst hr
    · exact .inl ⟨ht, hanswers, rfl⟩
    · exact .inr ⟨ht, hanswers, rfl⟩

/-! ## Main theorem -/

/-- A record is reconciled again and again, while its spec and whether its machine answers stay as they
are, the backends fail or not as they like, and the store accepts every status. Whatever its status:
* all attempts together make at most one call to a backend;
* once there were three attempts more than the threshold, the record is at rest, and however many more
  there are, they leave every record and the noted calls as they are. -/
theorem retry_comes_to_rest (w : World) {name : String} {server : Server}
    (hg : w.store.get name = some server) {attempts : List Attempt}
    (haccepted : w.Accepts name attempts) :
    (w.retry name attempts).plant.powerCalls.length ≤ w.plant.powerCalls.length + 1 ∧
    (w.threshold.toNat + 3 ≤ attempts.length →
      (∃ last, (w.retry name attempts).store.get name = some last ∧ last.spec = server.spec ∧
        (w.retry name attempts).AtRest last) ∧
      ∀ more, (w.retry name attempts).Undisturbed (w.retry name (attempts ++ more))) := by
  -- Without an address it does not matter which it is.
  let reachable := server.spec.address?.any w.plant.isReachable
  obtain ⟨n, m, hstage, hn, hm⟩ :=
    exists_stage w.threshold server.spec reachable server.statusOrDefault
  have hstart : w.InStage name server.spec reachable n m := by
    refine ⟨⟨server, hg, rfl, hstage⟩, fun address ha => ?_⟩
    simp [reachable, ha]
  obtain ⟨n', m', hend, hn', hm'⟩ := hstart.retry haccepted
  refine ⟨by omega, fun hlong => ?_⟩
  obtain rfl : n' = 0 := by omega
  refine ⟨hend.at_rest, fun more => ?_⟩
  have happend : w.retry name (attempts ++ more) = (w.retry name attempts).retry name more :=
    List.foldl_append
  rw [happend]
  exact hend.retry_at_rest more

/-- A machine that was woken and answers, but is to be off by then, and does not go off, at a threshold
of 1: the transition to on ends, it is told to shut down, it fails to, and it is given up. The last of
these four rounds is needed, and no round after it does anything. -/
theorem retry_comes_to_rest_asleep :
    let w := (start [.asleep] [] 1 (.ofSeconds 60)).after
      [.updatePowerState "m1" none .on, .reconcile "m1" .noon, .setReachable "10.0.0.1" true,
        .updatePowerState "m1" none .off]
    let rounds : List Attempt := List.replicate 4 ⟨.noon, some "no route", none, some "no answer"⟩
    (w.retry "m1" rounds).plant.powerCalls.length ≤ w.plant.powerCalls.length + 1 ∧
      (w.retry "m1" rounds).plant.shutdowns = [⟨"10.0.0.1", none⟩] ∧
      (∃ last, (w.retry "m1" rounds).store.get "m1" = some last ∧ (w.retry "m1" rounds).AtRest last) ∧
      (w.retry "m1" (rounds.take 3)).store ≠ (w.retry "m1" rounds).store ∧
      ∀ more, (w.retry "m1" rounds).Undisturbed (w.retry "m1" (rounds ++ more)) := by
  intro w rounds
  have hg : w.store.get "m1" =
      some (((Server.asleep.withPowerState .off).withStatus { phase := some .pending }).withVersion "4") := by
    decide +kernel
  have haccepted : w.Accepts "m1" rounds :=
    ⟨.of_ok (by decide +kernel), .of_ok (by decide +kernel), .of_ok (by decide +kernel),
      .of_ok (by decide +kernel), trivial⟩
  obtain ⟨hcalls, hrest⟩ := retry_comes_to_rest w hg haccepted
  obtain ⟨⟨last, hlast, -, hat⟩, hmore⟩ := hrest (by decide +kernel)
  exact ⟨hcalls, by decide +kernel, ⟨last, hlast, hat⟩, by decide +kernel, hmore⟩

end World

end MetalPool
