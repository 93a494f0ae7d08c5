import MetalPool.Proofs.Reconcile.Traced
import MetalPool.Proofs.World.Command
import MetalPool.Proofs.World.Result
/-!
# The machine probed is the machine commanded

A record's control blocks are read twice: for the address to probe, and for the
command. Both readers look at the one block that the control type names and at
no other (`Drives`, `afterRead_of_drivenAlike`), so a record that has an address
lacks nothing for a command but what only commands need (`Lacks`).
-/

namespace MetalPool

namespace ServerSpec

variable {spec spec' : ServerSpec} {d : PowerState} {e : PlanError} {address : String}
  {command : PowerCommand}

/-! ## One control block -/

/-- The block that the control type names has the address. -/
inductive Located (spec : ServerSpec) : String → Prop where
  | wol {wol : WolControl} (ht : spec.controlType = some .wol) (hw : spec.control.wol = some wol)
    (ha : wol.address ≠ "") : Located spec wol.address
  | ipmi {ipmi : IpmiControl} (ht : spec.controlType = some .ipmi)
    (hi : spec.control.ipmi = some ipmi) (ha : ipmi.address ≠ "") : Located spec ipmi.address

theorem address?_eq_some_iff : spec.address? = some address ↔ spec.Located address := by
  constructor
  · intro h
    obtain ⟨hfound, hne⟩ := Option.filter_eq_some_iff.1 h
    have hne : address ≠ "" := of_decide_eq_true hne
    split at hfound
    · cases hfound
    · rename_i ht
      obtain ⟨wol, hw, rfl⟩ := Option.map_eq_some_iff.1 hfound
      exact .wol ht hw hne
    · rename_i ht
      obtain ⟨ipmi, hi, rfl⟩ := Option.map_eq_some_iff.1 hfound
      exact .ipmi ht hi hne
  · intro h
    cases h with
    | wol ht hw ha => simp [address?, ht, hw, ha]
    | ipmi ht hi ha => simp [address?, ht, hi, ha]

/-- The command goes to the address, with what the same control block says. A wake-up has no
address of its own: it is the card of the machine at the address that it names. -/
inductive Drives (spec : ServerSpec) (address : String) : PowerCommand → Prop where
  | wake {wol : WolControl} (ht : spec.controlType = some .wol) (hw : spec.control.wol = some wol)
    (ha : wol.address = address) :
    Drives spec address (.wake wol.macAddress wol.port wol.broadcastAddress)
  | shutdown {wol : WolControl} {user : Option String} (ht : spec.controlType = some .wol)
    (hw : spec.control.wol = some wol) (ha : wol.address = address)
    (hu : ∀ u, user = some u ↔ wol.user = some u ∧ u ≠ "") :
    Drives spec address (.shutdown address user)
  | bmcOn {ipmi : IpmiControl} (ht : spec.controlType = some .ipmi)
    (hi : spec.control.ipmi = some ipmi) (ha : ipmi.address = address) :
    Drives spec address (.bmcOn address ipmi.username ipmi.password)
  | bmcOff {ipmi : IpmiControl} (ht : spec.controlType = some .ipmi)
    (hi : spec.control.ipmi = some ipmi) (ha : ipmi.address = address) :
    Drives spec address (.bmcOff address ipmi.username ipmi.password)

theorem Located.ne_empty (h : spec.Located address) : address ≠ "" := by
  cases h <;> assumption

theorem Located.eq_of_wol {wol : WolControl} (h : spec.Located address) (ht : spec.controlType = some .wol)
    (hw : spec.control.wol = some wol) : wol.address = address := by
  cases h with
  | wol _ hw' =>
    rw [hw] at hw'
    cases hw'
    rfl
  | ipmi ht' =>
    rw [ht] at ht'
    cases ht'

theorem Located.eq_of_ipmi {ipmi : IpmiControl} (h : spec.Located address)
    (ht : spec.controlType = some .ipmi) (hi : spec.control.ipmi = some ipmi) : ipmi.address = address := by
  cases h with
  | wol ht' =>
    rw [ht] at ht'
    cases ht'
  | ipmi _ hi' =>
    rw [hi] at hi'
    cases hi'
    rfl

/-- The planner reads the block that gives the address. -/
theorem Plans.drives (h : spec.Plans d command) (hl : spec.Located address) :
    spec.Drives address command := by
  cases h with
  | wake ht hw => exact .wake ht hw (hl.eq_of_wol ht hw)
  | @shutdown wol ht hw =>
    have hu (u : String) : wol.user.filter (· ≠ "") = some u ↔ wol.user = some u ∧ u ≠ "" := by
      rw [Option.filter_eq_some_iff, decide_eq_true_iff]
    obtain rfl := hl.eq_of_wol ht hw
    exact .shutdown ht hw rfl hu
  | bmcOn ht hi =>
    obtain rfl := hl.eq_of_ipmi ht hi
    exact .bmcOn ht hi rfl
  | bmcOff ht hi =>
    obtain rfl := hl.eq_of_ipmi ht hi
    exact .bmcOff ht hi rfl

/-! ## What a record with an address may lack -/

/-- What only a command needs, and the record does not give. -/
inductive Lacks (spec : ServerSpec) : PowerState → PlanError → Prop where
  | wolMac {wol : WolControl} (ht : spec.controlType = some .wol)
    (hw : spec.control.wol = some wol) (hm : wol.macAddress = "") : Lacks spec .on .wolMac
  | ipmiCredentials {ipmi : IpmiControl} {d : PowerState} (ht : spec.controlType = some .ipmi)
    (hi : spec.control.ipmi = some ipmi) (hc : ipmi.username = "" ∨ ipmi.password = "") :
    Lacks spec d .ipmiCredentials

/-- A record with an address has a control type, the control block of this type and the address in
it, so the planner reports none of these. -/
theorem plan_eq_error (hl : spec.Located address) : spec.plan d = .error e ↔ spec.Lacks d e := by
  constructor
  · intro h
    cases hl with
    | @wol wol ht hw ha =>
      simp only [plan, ht, hw] at h
      cases d <;> simp only [WolControl.plan] at h
      · split at h <;> cases h
        exact .wolMac ht hw ‹_›
      · rw [if_neg ha] at h
        cases h
    | @ipmi ipmi ht hi ha =>
      simp only [plan, ht, hi, IpmiControl.plan, if_neg ha] at h
      split at h
      · cases h
        exact .ipmiCredentials ht hi ‹_›
      · cases d <;> cases h
  · intro h
    cases h with
    | wolMac ht hw hm => simp only [plan, ht, hw, WolControl.plan, if_pos hm]
    | ipmiCredentials ht hi hc =>
      have ha := hl.eq_of_ipmi ht hi ▸ hl.ne_empty
      simp only [plan, ht, hi, IpmiControl.plan, if_neg ha, if_pos hc]

/-! ## The other control block -/

/-- The records desire the same, are driven in the same way, and have the same control block for it. -/
structure DrivenAlike (spec spec' : ServerSpec) : Prop where
  powerState : spec.powerState = spec'.powerState
  controlType : spec.controlType = spec'.controlType
  wol : spec.controlType = some .wol → spec.control.wol = spec'.control.wol
  ipmi : spec.controlType = some .ipmi → spec.control.ipmi = spec'.control.ipmi

/-- The control block in use, the same in both records. -/
theorem DrivenAlike.cases (h : spec.DrivenAlike spec') :
    (spec.controlType = none ∧ spec'.controlType = none) ∨
    (spec.controlType = some .wol ∧ spec'.controlType = some .wol ∧ spec.control.wol = spec'.control.wol) ∨
    (spec.controlType = some .ipmi ∧ spec'.controlType = some .ipmi ∧
      spec.control.ipmi = spec'.control.ipmi) := by
  rw [← h.controlType]
  cases ht : spec.controlType with
  | none => exact .inl ⟨rfl, rfl⟩
  | some t =>
    cases t with
    | wol => exact .inr (.inl ⟨rfl, rfl, h.wol ht⟩)
    | ipmi => exact .inr (.inr ⟨rfl, rfl, h.ipmi ht⟩)

theorem DrivenAlike.address?_eq (h : spec.DrivenAlike spec') : spec.address? = spec'.address? := by
  rcases h.cases with ⟨ht, ht'⟩ | ⟨ht, ht', hw⟩ | ⟨ht, ht', hi⟩
  · simp only [address?, ht, ht']
  · simp only [address?, ht, ht', hw]
  · simp only [address?, ht, ht', hi]

theorem DrivenAlike.plan_eq (h : spec.DrivenAlike spec') : spec.plan d = spec'.plan d := by
  rcases h.cases with ⟨ht, ht'⟩ | ⟨ht, ht', hw⟩ | ⟨ht, ht', hi⟩
  · simp only [plan, ht, ht']
  · simp only [plan, ht, ht', hw]
  · simp only [plan, ht, ht', hi]

theorem DrivenAlike.desired_eq (h : spec.DrivenAlike spec') : spec.desired = spec'.desired := by
  rw [desired, desired, h.powerState]

end ServerSpec

theorem ServerStatus.address?_of_precheck {status : ServerStatus} {spec : ServerSpec} {threshold : UInt32}
    {address : String} (h : status.precheck spec threshold = .proceed address) :
    spec.address? = some address := by
  unfold precheck at h
  split at h
  · cases h
  · split at h
    · cases h
    · cases ha : spec.address? with
      | none => rw [ha] at h; cases h
      | some found => rw [ha] at h; cases h; rfl

theorem ServerStatus.precheck_of_drivenAlike (status : ServerStatus) {spec spec' : ServerSpec}
    (h : spec.DrivenAlike spec') (threshold : UInt32) :
    status.precheck spec threshold = status.precheck spec' threshold := by
  rw [precheck, precheck, h.address?_eq]

namespace Course

variable {server : Server} {spec : ServerSpec}

theorem act_of_drivenAlike (h : spec.DrivenAlike server.spec) (requeue : Span) (name : String)
    (status : ServerStatus) :
    act requeue name { server with spec } status = act requeue name server status := by
  have hafter (result : Except ActionError Unit) :
      afterAction requeue name { server with spec } status result =
        afterAction requeue name server status result := by
    unfold afterAction
    rw [h.desired_eq]
    rfl
  unfold act
  rw [h.plan_eq, h.desired_eq]
  simp only [hafter]

theorem afterRead_of_drivenAlike (h : spec.DrivenAlike server.spec) (threshold : UInt32) (requeue : Span)
    (name : String) (now : Timestamp) :
    afterRead threshold requeue name now (.ok (some { server with spec })) =
      afterRead threshold requeue name now (.ok (some server)) := by
  have hprobe (seen : Observation × ServerStatus) :
      afterProbe requeue name { server with spec } seen = afterProbe requeue name server seen := by
    obtain ⟨observation, status⟩ := seen
    cases observation with
    | settled | waiting => rfl
    | observed =>
      simp only [afterProbe, h.desired_eq, act_of_drivenAlike h]
      rfl
  have hcheck : ({ server with spec } : Server).statusOrDefault.precheck spec threshold =
      server.statusOrDefault.precheck server.spec threshold :=
    ServerStatus.precheck_of_drivenAlike _ h threshold
  simp only [afterRead, hprobe, hcheck]
  rfl

end Course

namespace World

variable {name : String} {server : Server} {now : Timestamp} {command : PowerCommand}

/-! ## The deeds before a command -/

section

variable {σ : Type} [Backends σ] {w : World σ}

theorem command_not_mem_conclude {status : ServerStatus} {result : Reconciled} :
    .command command ∉ (Course.conclude name server status result).deeds w := by
  intro h
  obtain ⟨written, hdeeds, hw⟩ := deeds_conclude w name server status result
  rw [hdeeds, Option.mem_toList] at h
  obtain ⟨_, _, he⟩ := hw _ h
  cases he

/-- After the probe, a command is the one that is planned, and at most a new status is written after it. -/
theorem deeds_afterProbe_of_command {requeue : Span} {seen : Observation × ServerStatus}
    (h : .command command ∈ (Course.afterProbe requeue name server seen).deeds w) :
    server.spec.plan server.spec.desired = .ok command ∧
      ∃ written : Option Deed,
        (Course.afterProbe requeue name server seen).deeds w = .command command :: written.toList ∧
        ∀ d ∈ written, Renews name server d := by
  obtain ⟨observation, status⟩ := seen
  cases observation with
  | settled | waiting => exact absurd h command_not_mem_conclude
  | observed =>
    simp only [Course.afterProbe] at h ⊢
    split at h
    · exact absurd h command_not_mem_conclude
    · rename_i hd
      rw [if_neg hd]
      unfold Course.act at h ⊢
      cases hplan : server.spec.plan server.spec.desired with
      | error e =>
        rw [hplan] at h
        exact absurd h command_not_mem_conclude
      | ok planned =>
        simp only [hplan, Course.deeds, List.mem_cons] at h
        rcases h with he | h
        · cases he
          obtain ⟨written, hdeeds, hw⟩ := deeds_conclude (w.perform (.command command)).2 name server _ _
          exact ⟨rfl, written, congrArg _ hdeeds, hw⟩
        · exact absurd h command_not_mem_conclude

/-- A reconciliation that commands a machine read the record and probed its address just before. -/
theorem deeds_of_command (h : .command command ∈ w.deeds name now) :
    ∃ (server : Server) (address : String) (written : Option Deed),
      w.store.get name = some server ∧ server.spec.address? = some address ∧
      server.spec.plan server.spec.desired = .ok command ∧
      w.deeds name now =
        .ask (.get name) :: .probe address :: .command command :: written.toList ∧
      ∀ d ∈ written, Renews name server d := by
  have hread : w.deeds name now = .ask (.get name) ::
      (Course.afterRead w.threshold w.requeue name now (.ok (w.store.get name))).deeds w := rfl
  rw [hread, List.mem_cons] at h
  rcases h with hask | h
  · cases hask
  rw [hread]
  cases hg : w.store.get name with
  | none =>
    rw [hg] at h
    cases h
  | some server =>
    rw [hg] at h
    simp only [Course.afterRead] at h ⊢
    cases hcheck : server.statusOrDefault.precheck server.spec w.threshold with
    | skip =>
      rw [hcheck] at h
      cases h
    | frozen | missingAddress =>
      rw [hcheck] at h
      exact absurd h command_not_mem_conclude
    | proceed address =>
      simp only [hcheck, Course.deeds, List.mem_cons] at h
      rcases h with hprobe | h
      · cases hprobe
      obtain ⟨hplan, written, hdeeds, hw⟩ := deeds_afterProbe_of_command h
      refine ⟨server, address, written, rfl, ServerStatus.address?_of_precheck hcheck, hplan, ?_, hw⟩
      simp only [Course.deeds, hdeeds]

/-- The planner reads the block that gave the address to probe. -/
theorem drives_of_plan {spec : ServerSpec} {d : PowerState} {address : String}
    (hplan : spec.plan d = .ok command) (ha : spec.address? = some address) : spec.Drives address command :=
  (ServerSpec.plans_of_plan hplan).drives (ServerSpec.address?_eq_some_iff.1 ha)

/-- A reconciliation that commands a machine calls backends for the probe and for the command, and no more. -/
theorem calls_of_command (h : .command command ∈ w.calls name now) :
    ∃ server address, w.store.get name = some server ∧ server.spec.address? = some address ∧
      w.calls name now = [.probe address, .command command] ∧ server.spec.Drives address command := by
  have hmem : .command command ∈ w.deeds name now := by
    obtain ⟨deed, hdeed, hcall⟩ := List.mem_filterMap.1 h
    cases deed <;> cases hcall
    exact hdeed
  obtain ⟨server, address, written, hg, ha, hplan, hdeeds, hw⟩ := deeds_of_command hmem
  refine ⟨server, address, hg, ha, ?_, drives_of_plan hplan ha⟩
  unfold calls
  rw [hdeeds]
  -- A status written after the command goes to the store, which is no backend.
  cases written with
  | none => rfl
  | some d =>
    obtain ⟨status, -, rfl⟩ := hw d rfl
    rfl

end

variable {w : World}

/-! ## Calls and results -/

theorem Due.drives {address : String} (h : w.Due name server address command) :
    server.spec.Drives address command :=
  drives_of_plan h.plan_eq h.address_eq

/-- A shutdown is sent to the address just probed, for the user of the control block that has it, and never
for an empty user. -/
theorem probed_of_shutdown {call : ShutdownCall}
    (h : call ∈ ((w.reconcile name now).2.plant.callsSince w.plant).shutdowns) :
    ((w.reconcile name now).2.plant.callsSince w.plant).probes = [call.host] ∧ call.user ≠ some "" ∧
      ∃ server, w.store.get name = some server ∧
        server.spec.Drives call.host (.shutdown call.host call.user) := by
  have hcall : .shutdown call ∈ ((w.reconcile name now).2.plant.callsSince w.plant).powerCalls :=
    List.mem_append_left _ (List.mem_append_right _ (List.mem_map_of_mem h))
  obtain ⟨server, address, command, hdue, heq, hprobes⟩ := due_of_call hcall
  have hdrives := hdue.drives
  cases hdrives with
  | wake | bmcOn | bmcOff => cases heq
  | shutdown _ _ _ hu =>
    cases heq
    exact ⟨hprobes, fun hempty => ((hu "").1 hempty).2 rfl, server, hdue.get_eq, hdue.drives⟩

/-- A management controller is called at the address just probed, for a command of the control block that
has it. -/
theorem probed_of_bmcCall {call : BmcCall}
    (h : call ∈ ((w.reconcile name now).2.plant.callsSince w.plant).bmcCalls) :
    ((w.reconcile name now).2.plant.callsSince w.plant).probes = [call.address] ∧
      ∃ server command, w.store.get name = some server ∧ command.call = .bmc call ∧
        server.spec.Drives call.address command := by
  have hcall : .bmc call ∈ ((w.reconcile name now).2.plant.callsSince w.plant).powerCalls :=
    List.mem_append_right _ (List.mem_map_of_mem h)
  obtain ⟨server, address, command, hdue, heq, hprobes⟩ := due_of_call hcall
  have hdrives := hdue.drives
  cases hdrives with
  | wake | shutdown => cases heq
  | bmcOn | bmcOff =>
    cases heq
    exact ⟨hprobes, server, _, hdue.get_eq, rfl, hdue.drives⟩

theorem lacks_of_result {text : String}
    (h : (w.reconcile name now).1 = .error (.powerAction (.config text))) :
    ∃ server address e, w.store.get name = some server ∧ w.Astray server address ∧
      server.spec.Lacks server.spec.desired e ∧ text = e.message := by
  obtain ⟨server, hfails, hg, -⟩ := (actionFails_iff w name now _).1 h
  cases hfails with
  | unplanned hastray hplan =>
    have hlacks := (ServerSpec.plan_eq_error (ServerSpec.address?_eq_some_iff.1 hastray.address_eq)).1 hplan
    exact ⟨server, _, _, hg, hastray, hlacks, rfl⟩

/-! ## Main theorem -/

/-- A reconciliation that commands a machine probed it just before, at the address that the control
block in use gives, and says in the command what that block says: what stands in the other block
makes no difference to anything the reconciliation does. So it is whatever the backends are: they are
called for the probe and for that command alone, with the user and the password in it. Calls are
never made for an empty user. Once the checks before the probe have passed, a record lacks at most
the MAC address to be woken at, or the user and password of a management controller, and nothing
else is ever reported as lacking. -/
theorem command_follows_probe (w : World) (name : String) (now : Timestamp) :
    (∀ command, .command command ∈ w.deeds name now → ∃ server address rest,
      w.store.get name = some server ∧ server.spec.address? = some address ∧
      w.deeds name now = .ask (.get name) :: .probe address :: .command command :: rest ∧
      server.spec.Drives address command) ∧
    (∀ (server : Server) (spec : ServerSpec), spec.DrivenAlike server.spec →
      Course.afterRead w.threshold w.requeue name now (.ok (some { server with spec })) =
        Course.afterRead w.threshold w.requeue name now (.ok (some server))) ∧
    (∀ (σ : Type) [Backends σ] (v : World σ), ∃ calls,
      (v.traced []).reconcile name now =
        ((v.reconcile name now).1, (v.reconcile name now).2.traced calls) ∧
      ∀ command, .command command ∈ calls → ∃ server address,
        v.store.get name = some server ∧ server.spec.address? = some address ∧
        calls = [.probe address, .command command] ∧ server.spec.Drives address command) ∧
    (let calls := (w.reconcile name now).2.plant.callsSince w.plant;
      (∀ call ∈ calls.shutdowns, calls.probes = [call.host] ∧ call.user ≠ some "" ∧
        ∃ server, w.store.get name = some server ∧
          server.spec.Drives call.host (.shutdown call.host call.user)) ∧
      ∀ call ∈ calls.bmcCalls, calls.probes = [call.address] ∧
        ∃ server command, w.store.get name = some server ∧ command.call = .bmc call ∧
          server.spec.Drives call.address command) ∧
    (∀ (status : ServerStatus) (spec : ServerSpec) (address : String),
      status.precheck spec w.threshold = .proceed address →
      ∀ d e, spec.plan d = .error e ↔ spec.Lacks d e) ∧
    ∀ text, (w.reconcile name now).1 = .error (.powerAction (.config text)) →
      ∃ server address e, w.store.get name = some server ∧ w.Astray server address ∧
        server.spec.Lacks server.spec.desired e ∧ text = e.message := by
  refine ⟨fun command h => ?_, fun server spec h => Course.afterRead_of_drivenAlike h ..,
    fun σ _ v => ⟨v.calls name now, v.reconcile_traced [] name now, fun _ => calls_of_command⟩,
    ⟨fun _ => probed_of_shutdown, fun _ => probed_of_bmcCall⟩, fun status spec address h d e => ?_,
    fun _ => lacks_of_result⟩
  · obtain ⟨server, address, written, hg, ha, hplan, hdeeds, -⟩ := deeds_of_command h
    exact ⟨server, address, written.toList, hg, ha, hdeeds, drives_of_plan hplan ha⟩
  · exact ServerSpec.plan_eq_error (ServerSpec.address?_eq_some_iff.1 (ServerStatus.address?_of_precheck h))

/-- A machine with both control blocks is shut down where it was probed, by the block in use. -/
theorem command_follows_probe_both :
    let wol : WolControl := { address := "10.0.0.1", user := some "" }
    let ipmi : IpmiControl := { address := "10.0.0.2", username := "admin", password := "secret" }
    let machine : Server := { Server.asleep with
      spec := { controlType := some .wol, control := { ipmi := some ipmi, wol := some wol } } }
    let w := start [machine] ["10.0.0.1"] 3 (.ofSeconds 60)
    (∃ server address rest, w.store.get "m1" = some server ∧ server.spec.address? = some address ∧
      w.deeds "m1" .noon =
        .ask (.get "m1") :: .probe address :: .command (.shutdown "10.0.0.1" none) :: rest ∧
      server.spec.Drives address (.shutdown "10.0.0.1" none)) ∧
    ∃ server address, w.store.get "m1" = some server ∧ server.spec.address? = some address ∧
      ((w.traced []).reconcile "m1" .noon).2.plant.calls =
        [.probe address, .command (.shutdown "10.0.0.1" none)] ∧
      server.spec.Drives address (.shutdown "10.0.0.1" none) := by
  intro wol ipmi machine w
  have hdeeds : w.deeds "m1" .noon = [.ask (.get "m1"), .probe "10.0.0.1",
      .command (.shutdown "10.0.0.1" none),
      .ask (.updateStatus "m1" (some "1") { phase := some .draining })] := rfl
  have hmem : .command (.shutdown "10.0.0.1" none) ∈ w.deeds "m1" .noon :=
    hdeeds ▸ .tail _ (.tail _ (.head _))
  obtain ⟨hdeed, -, hcalls, -⟩ := command_follows_probe w "m1" .noon
  obtain ⟨calls, htraced, hcall⟩ := hcalls Plant w
  have hnoted : calls = [.probe "10.0.0.1", .command (.shutdown "10.0.0.1" none)] :=
    (congrArg (fun r => r.2.plant.calls) htraced).symm
  refine ⟨hdeed _ hmem, ?_⟩
  rw [htraced]
  exact hcall _ (hnoted ▸ .tail _ (.head _))

end World

end MetalPool
