import MetalPool.Proofs.Power.Plan
import MetalPool.Proofs.World.Run
/-!
# Power commands of a run

A command is due when a machine in no transition is not as desired and its
record says how to drive it. A reconciliation makes a call to a backend exactly
when a command is due, and then the one call of that command; no other step of
a run switches a machine (`power_call_iff_due`).
-/

namespace MetalPool

/-- A call to a backend that drives machines. -/
inductive PowerCall where
  | wake (call : WakeCall)
  | shutdown (call : ShutdownCall)
  | bmc (call : BmcCall)
deriving DecidableEq, Repr

/-- The state that the call takes a machine to, unless it only asks. -/
def PowerCall.target? : PowerCall → Option PowerState
  | .wake _ | .bmc ⟨.powerOn, _⟩ => some .on
  | .shutdown _ | .bmc ⟨.powerOff, _⟩ => some .off
  | .bmc ⟨.status, _⟩ => none

/-- The call takes a machine to the state that its record desires, by the record's own means. -/
def PowerCall.Serves (call : PowerCall) (spec : ServerSpec) : Prop :=
  match spec.desired, spec.controlType with
  | .on, some .wol => ∃ c, call = .wake c
  | .on, some .ipmi => ∃ address, call = .bmc ⟨.powerOn, address⟩
  | .off, some .wol => ∃ c, call = .shutdown c
  | .off, some .ipmi => ∃ address, call = .bmc ⟨.powerOff, address⟩
  | _, none => False

/-- The call that carries out a command. -/
def PowerCommand.call : PowerCommand → PowerCall
  | .wake mac port broadcastAddress => .wake ⟨mac, port, broadcastAddress⟩
  | .shutdown host user => .shutdown ⟨host, user⟩
  | .bmcOn address _ _ => .bmc ⟨.powerOn, address⟩
  | .bmcOff address _ _ => .bmc ⟨.powerOff, address⟩

theorem PowerCommand.target_call (c : PowerCommand) : c.call.target? = some c.target := by
  cases c <;> rfl

theorem ServerSpec.Plans.serves {spec : ServerSpec} {command : PowerCommand}
    (h : spec.Plans spec.desired command) : command.call.Serves spec := by
  unfold PowerCall.Serves
  generalize spec.desired = d at h ⊢
  cases h with
  | wake ht | shutdown ht | bmcOn ht | bmcOff ht => rw [ht]; exact ⟨_, rfl⟩

/-- The calls noted to the backends, those of one backend in order. -/
def Plant.powerCalls (p : Plant) : List PowerCall :=
  p.wakes.map .wake ++ p.shutdowns.map .shutdown ++ p.bmcCalls.map .bmc

/-- The machines with one more call noted. -/
def Plant.note (p : Plant) : PowerCall → Plant
  | .wake call => { p with wakes := p.wakes ++ [call] }
  | .shutdown call => { p with shutdowns := p.shutdowns ++ [call] }
  | .bmc call => { p with bmcCalls := p.bmcCalls ++ [call] }

/-- A command notes its call; besides, a management controller may remember the state. -/
theorem Plant.execute_note (p : Plant) (command : PowerCommand) :
    ∃ powered, (p.execute command).2 = { p.note command.call with powered := powered } := by
  cases command with
  | wake | shutdown => exact ⟨p.powered, rfl⟩
  | bmcOn | bmcOff =>
    simp only [execute_bmcOn, execute_bmcOff, bmcSwitch]
    split
    · exact ⟨p.powered, rfl⟩
    · exact ⟨_, rfl⟩

namespace World

variable {w : World} {name : String} {server : Server}

/-- A reconciliation of `server`, the record called `name`, has to issue `command`. -/
structure Due (w : World) (name : String) (server : Server) (address : String)
    (command : PowerCommand) : Prop where
  get_eq : w.store.get name = some server
  resting : server.statusOrDefault.Resting
  below : server.statusOrDefault.failureCount < w.threshold
  address_eq : server.spec.address? = some address
  differs : w.plant.isReachable address ≠ server.spec.desired.isOn
  plan_eq : server.spec.plan server.spec.desired = .ok command

/-! ## Calls of a reconciliation -/

theorem powerCalls_same {p before : Plant} (hw : p.wakes = before.wakes)
    (hs : p.shutdowns = before.shutdowns) (hb : p.bmcCalls = before.bmcCalls) :
    (p.callsSince before).powerCalls = [] := by
  simp [Plant.callsSince, Plant.powerCalls, hw, hs, hb]

/-- A command is noted as its call. -/
theorem powerCalls_execute (command : PowerCommand) {p before : Plant} (hw : p.wakes = before.wakes)
    (hs : p.shutdowns = before.shutdowns) (hb : p.bmcCalls = before.bmcCalls) :
    ((p.execute command).2.callsSince before).powerCalls = [command.call] := by
  obtain ⟨powered, he⟩ := p.execute_note command
  rw [he]
  cases command.call <;> simp [Plant.note, Plant.callsSince, Plant.powerCalls, hw, hs, hb]

theorem probes_execute (p : Plant) (command : PowerCommand) :
    (p.execute command).2.probes = p.probes := by
  obtain ⟨powered, he⟩ := p.execute_note command
  rw [he]
  cases command.call <;> rfl

theorem carry_powerCalls (w : World) (r : Round) :
    ((w.carry r).plant.callsSince w.plant).powerCalls = r.command.toList.map PowerCommand.call := by
  obtain ⟨probed, command, status, result⟩ := r
  cases command with
  | none => cases probed <;> exact powerCalls_same rfl rfl rfl
  | some command =>
    cases probed with
    | none => exact powerCalls_execute command rfl rfl rfl
    | some address =>
      have hw : (w.probe address).2.plant.wakes = w.plant.wakes := rfl
      exact powerCalls_execute command hw rfl rfl

theorem probes_carry (w : World) (r : Round) :
    (w.carry r).plant.probes = w.plant.probes ++ r.probed.toList := by
  obtain ⟨probed, command, status, result⟩ := r
  cases probed <;> cases command
  · exact (List.append_nil _).symm
  · exact (probes_execute ..).trans (List.append_nil _).symm
  · rfl
  · exact probes_execute ..

theorem carry_probes (w : World) (r : Round) :
    ((w.carry r).plant.callsSince w.plant).probes = r.probed.toList := by
  unfold Plant.callsSince
  rw [probes_carry]
  exact List.drop_left

/-- The one round that issues a command is that of a command that is due. -/
theorem Decides.command_iff {now : Timestamp} {r : Round} (hg : w.store.get name = some server)
    (hd : w.Decides name server now r) (command : PowerCommand) :
    r.command = some command ↔ ∃ address, w.Due name server address command := by
  constructor
  · intro hc
    cases hd with
    | refused hp ht hr hplan | commanded hp ht hr hplan =>
      cases hc
      exact ⟨_, hg, ht, hp.below, hp.address_eq, hr, hplan⟩
    | _ => cases hc
  · rintro ⟨address, -, ht, hlt, ha, hr, hplan⟩
    cases hd with
    | failed hf => exact absurd hf ht.not_failed
    | frozen _ hc => exact absurd hlt (UInt32.not_lt.2 hc)
    | unaddressed _ _ hna => rw [hna] at ha; cases ha
    | arrived _ htr | waiting _ htr => exact absurd htr (ht.ne_transition _)
    | converged hp _ hr' =>
      rw [hp.address_eq] at ha; cases ha
      exact absurd hr' hr
    | unplanned _ _ _ hplan' => rw [hplan'] at hplan; cases hplan
    | refused _ _ _ hplan' | commanded _ _ _ hplan' => rw [hplan'] at hplan; cases hplan; rfl

/-- A round that issues a command probed the machine first. -/
theorem Decides.probed_of_due {now : Timestamp} {r : Round} {address : String} {command : PowerCommand}
    (hd : w.Decides name server now r) (hc : r.command = some command)
    (ha : server.spec.address? = some address) : r.probed = some address := by
  cases hd with
  | refused hp | commanded hp => rw [← hp.address_eq]; exact ha
  | _ => cases hc

/-- What a reconciliation does to the store, and what it notes of the machines. -/
theorem reconcile_round (hg : w.store.get name = some server) (now : Timestamp) :
    ∃ r, w.Decides name server now r ∧
      w.Persists name server r (w.reconcile name now).1 (w.reconcile name now).2.store ∧
      ((w.reconcile name now).2.plant.callsSince w.plant).powerCalls =
        r.command.toList.map PowerCommand.call ∧
      ((w.reconcile name now).2.plant.callsSince w.plant).probes = r.probed.toList := by
  obtain ⟨r, hd, hs, hp⟩ := reconcile_of_get hg now
  refine ⟨r, hd, hs, ?_⟩
  rw [hp]
  exact ⟨carry_powerCalls w r, carry_probes w r⟩

theorem reconcile_calls_of_none (hg : w.store.get name = none) (now : Timestamp) :
    ((w.reconcile name now).2.plant.callsSince w.plant).powerCalls = [] := by
  rw [reconcile_of_none hg]
  exact powerCalls_same rfl rfl rfl

/-- A call of a reconciliation is that of the command that is due, right after the probe. -/
theorem due_of_call {now : Timestamp} {call : PowerCall}
    (h : call ∈ ((w.reconcile name now).2.plant.callsSince w.plant).powerCalls) :
    ∃ server address command, w.Due name server address command ∧ call = command.call ∧
      ((w.reconcile name now).2.plant.callsSince w.plant).probes = [address] := by
  cases hg : w.store.get name with
  | none => rw [reconcile_calls_of_none hg] at h; cases h
  | some server =>
    obtain ⟨r, hd, -, hcalls, hprobes⟩ := reconcile_round hg now
    rw [hcalls, List.mem_map] at h
    obtain ⟨command, hm, rfl⟩ := h
    have hc := Option.mem_toList.1 hm
    obtain ⟨address, hdue⟩ := (hd.command_iff hg command).1 hc
    exact ⟨server, address, command, hdue, rfl, by rw [hprobes, hd.probed_of_due hc hdue.address_eq]; rfl⟩

theorem Due.reachable_eq {address : String} {command : PowerCommand} (h : w.Due name server address command) :
    w.plant.isReachable address = !server.spec.desired.isOn :=
  Bool.eq_not.2 h.differs

/-! ## Calls of any step -/

/-- What is noted of the machines in one step. -/
def noted (w : World) (s : Step) : Plant := (w.step s).2.plant.callsSince w.plant

theorem not_noted {s : Step} {call : PowerCall} (hw : (w.step s).2.plant.wakes = w.plant.wakes)
    (hs : (w.step s).2.plant.shutdowns = w.plant.shutdowns)
    (hb : (w.step s).2.plant.bmcCalls = w.plant.bmcCalls) : call ∉ (w.noted s).powerCalls := by
  unfold noted
  rw [powerCalls_same hw hs hb]
  exact List.not_mem_nil

theorem noted_bmcStatus (w : World) (address : String) :
    (w.noted (.bmcStatus address)).powerCalls = [.bmc ⟨.status, address⟩] := by
  simp [noted, step, Prod.map, Plant.bmcStatus, Plant.noteBmc, Plant.callsSince, Plant.powerCalls]

/-- Only reconciliations switch machines. -/
theorem reconcile_of_noted {s : Step} {call : PowerCall} {d : PowerState}
    (h : call ∈ (w.noted s).powerCalls) (ht : call.target? = some d) :
    ∃ name now, s = .reconcile name now := by
  cases s with
  | reconcile name now => exact ⟨name, now, rfl⟩
  | failWith backend detail => cases backend <;> exact absurd h (not_noted rfl rfl rfl)
  | bmcStatus address =>
    rw [noted_bmcStatus, List.mem_singleton] at h
    subst h
    cases ht
  | _ => exact absurd h (not_noted rfl rfl rfl)

/-! ## Main theorem -/

/-- One reconciliation makes at most one call to a backend, and it makes one exactly when a command
is due: the call of that command, after a probe that found the machine not as desired. In a run
no machine is switched but toward the state that its record desires at that moment. -/
theorem power_call_iff_due (w : World) :
    (∀ (name : String) (now : Timestamp),
      let calls := (w.reconcile name now).2.plant.callsSince w.plant
      calls.powerCalls.length ≤ 1 ∧
      (calls.powerCalls.length = 1 ↔ ∃ server address command, w.Due name server address command) ∧
      ∀ call ∈ calls.powerCalls, ∃ server address command, w.Due name server address command ∧
        call = command.call ∧ call.Serves server.spec ∧ calls.probes = [address] ∧
        w.plant.isReachable address = !server.spec.desired.isOn) ∧
    ∀ (steps : List Step) (s : Step) (call : PowerCall) (d : PowerState),
      call ∈ ((w.after steps).noted s).powerCalls → call.target? = some d →
      ∃ name now server, s = .reconcile name now ∧ (w.after steps).store.get name = some server ∧
        server.spec.desired = d := by
  refine ⟨fun name now => ⟨?_, ?_, ?_⟩, ?_⟩
  · cases hg : w.store.get name with
    | none => rw [reconcile_calls_of_none hg]; exact Nat.zero_le _
    | some server =>
      obtain ⟨r, -, -, hcalls, -⟩ := reconcile_round hg now
      rw [hcalls, List.length_map]
      exact Option.length_toList_le
  · constructor
    · intro hlen
      obtain ⟨call, hcall⟩ := List.length_eq_one_iff.1 hlen
      obtain ⟨server, address, command, hdue, -⟩ := due_of_call (hcall ▸ List.mem_singleton_self call)
      exact ⟨server, address, command, hdue⟩
    · rintro ⟨server, address, command, hdue⟩
      obtain ⟨r, hd, -, hcalls, -⟩ := reconcile_round hdue.get_eq now
      rw [hcalls, (hd.command_iff hdue.get_eq command).2 ⟨address, hdue⟩]
      rfl
  · intro call hcall
    obtain ⟨server, address, command, hdue, rfl, hprobes⟩ := due_of_call hcall
    exact ⟨server, address, command, hdue, rfl, (ServerSpec.plans_of_plan hdue.plan_eq).serves, hprobes,
      hdue.reachable_eq⟩
  · intro steps s call d hcall ht
    obtain ⟨name, now, rfl⟩ := reconcile_of_noted hcall ht
    obtain ⟨server, address, command, hdue, rfl, -⟩ := due_of_call hcall
    refine ⟨name, now, server, rfl, hdue.get_eq, ?_⟩
    rw [PowerCommand.target_call, (ServerSpec.plans_of_plan hdue.plan_eq).target] at ht
    exact Option.some.inj ht

/-- A machine that the pool wants on and that does not answer is woken. -/
theorem power_call_iff_due_asleep :
    let w := start [.asleep] [] 3 (.ofSeconds 60)
    let up : List Step := [.pool (.increaseSize Pool.groupId 1)]
    (w.after up).Due "m1" ((Server.asleep.withPowerState .on).withVersion "2") "10.0.0.1"
        (.wake "aa:bb:cc:dd:ee:ff" 9 none) ∧
      (((w.after up).reconcile "m1" .noon).2.plant.callsSince (w.after up).plant).powerCalls.length = 1 ∧
      ∃ name now server, Step.reconcile "m1" .noon = .reconcile name now ∧
        (w.after up).store.get name = some server ∧ server.spec.desired = .on := by
  intro w up
  have hdue : (w.after up).Due "m1" ((Server.asleep.withPowerState .on).withVersion "2") "10.0.0.1"
      (.wake "aa:bb:cc:dd:ee:ff" 9 none) :=
    { get_eq := by decide +kernel
      resting := .inl rfl
      below := by decide +kernel
      address_eq := rfl
      differs := by decide +kernel
      plan_eq := rfl }
  have hcall : .wake ⟨"aa:bb:cc:dd:ee:ff", 9, none⟩ ∈
      ((w.after up).noted (.reconcile "m1" .noon)).powerCalls := by decide +kernel
  exact ⟨hdue, ((power_call_iff_due (w.after up)).1 "m1" .noon).2.1.2 ⟨_, _, _, hdue⟩,
    (power_call_iff_due w).2 up _ _ .on hcall rfl⟩

end World

end MetalPool
