import MetalPool.Proofs.Power.Plan
import MetalPool.Proofs.Power.Secrecy
import MetalPool.Proofs.World.Run
/-!
# Passwords stay where they are

Worlds that redact to the same differ in passwords of management controllers at
most. A reconciliation takes them to such worlds again, and ends alike, over any
backends that conceal passwords (`AlikeButPasswords.reconcile`): over the machines to rehearse
on, and over real ones (`AlikeButPasswords.reconcile_rig`). Every other step but one that
hands out a record answers alike in them too (`step_sameButPasswords`), so a run
shows the same in both.
-/

namespace MetalPool

/-! ## Parts of a reconciliation -/

section

variable {server server' : Server}

theorem Server.statusOrDefault_of_redacted (h : server.redacted = server'.redacted) :
    server.statusOrDefault = server'.statusOrDefault :=
  (congrArg Server.statusOrDefault h :)

theorem Server.version?_of_redacted (h : server.redacted = server'.redacted) :
    server.version? = server'.version? :=
  (congrArg Server.version? h :)

theorem Server.spec_of_redacted (h : server.redacted = server'.redacted) :
    server.spec.redacted = server'.spec.redacted :=
  (congrArg Server.spec h :)

theorem Server.desired_of_redacted (h : server.redacted = server'.redacted) :
    server.spec.desired = server'.spec.desired :=
  (congrArg ServerSpec.desired (spec_of_redacted h) :)

end

theorem ServerStatus.precheck_redacted (status : ServerStatus) (spec : ServerSpec) (threshold : UInt32) :
    status.precheck spec.redacted threshold = status.precheck spec threshold := by
  unfold precheck
  rw [spec.address?_redacted]

theorem PowerCommand.label_redacted (c : PowerCommand) : c.redacted.label = c.label := by
  cases c <;> rfl

/-- A write that leaves passwords alone goes alike in stores that redact to the same. -/
theorem Store.write_alike {s s' : Store} (h : s.redacted = s'.redacted) (name : String)
    (version : Option String) {change : Server → Server}
    (hchange : ∀ server, change server.redacted = (change server).redacted) :
    (s.write name version change).1 = (s'.write name version change).1 ∧
      (s.write name version change).2.redacted = (s'.write name version change).2.redacted := by
  have hs := s.write_redacted name version change hchange
  have hs' := s'.write_redacted name version change hchange
  rw [h, hs'] at hs
  exact ⟨(congrArg Prod.fst hs).symm, (congrArg Prod.snd hs).symm⟩

/-- A password has a say in what is planned only by being there. -/
theorem ServerSpec.plan_alike {spec spec' : ServerSpec} (h : spec.redacted = spec'.redacted)
    (desired : PowerState) :
    (∃ e, spec.plan desired = .error e ∧ spec'.plan desired = .error e) ∨
    ∃ c c', spec.plan desired = .ok c ∧ spec'.plan desired = .ok c' ∧ c.redacted = c'.redacted := by
  have hplan : (spec.plan desired).map PowerCommand.redacted =
      (spec'.plan desired).map PowerCommand.redacted := by
    rw [← spec.plan_redacted, h, spec'.plan_redacted]
  cases hs : spec.plan desired <;> cases hs' : spec'.plan desired <;> rw [hs, hs'] at hplan
  · cases hplan
    exact .inl ⟨_, rfl, rfl⟩
  · cases hplan
  · cases hplan
  · exact .inr ⟨_, _, rfl, rfl, Except.ok.inj hplan⟩

/-- The password of the management controller can be passed to a tool, if there is one. -/
def ServerSpec.Passable (spec : ServerSpec) : Prop :=
  ∀ ipmi ∈ spec.control.ipmi, MetalPool.Passable ipmi.password

theorem ServerSpec.passable_iff {spec : ServerSpec} {ipmi : IpmiControl} (h : spec.control.ipmi = some ipmi) :
    spec.Passable ↔ MetalPool.Passable ipmi.password := by
  simp [Passable, h]

/-- A management controller is handed the password of the record. -/
theorem ServerSpec.Plans.passable_of_bmc {spec : ServerSpec} {d : PowerState} {c : PowerCommand}
    {address username password : String} (h : spec.Plans d c)
    (hc : c = .bmcOn address username password ∨ c = .bmcOff address username password) :
    spec.Passable ↔ MetalPool.Passable password := by
  cases h with
  | wake | shutdown => simp at hc
  | bmcOn _ hi | bmcOff _ hi =>
    obtain ⟨-, -, rfl⟩ := by simpa using hc
    exact passable_iff hi

/-- Of two commands that are the same but for their passwords, a tool can be passed that of the one if it can
be passed that of the other, if this holds of the records. -/
theorem ServerSpec.passable_iff_of_plan {spec spec' : ServerSpec} {d d' : PowerState} {c c' : PowerCommand}
    (hspec : spec.Passable ↔ spec'.Passable) (hc : spec.plan d = .ok c) (hc' : spec'.plan d' = .ok c')
    (hredacted : c.redacted = c'.redacted) : c.Passable ↔ c'.Passable := by
  have h := plans_of_plan hc
  have h' := plans_of_plan hc'
  rcases PowerCommand.cases_of_redacted hredacted with
    rfl | ⟨address, username, p, q, rfl, rfl⟩ | ⟨address, username, p, q, rfl, rfl⟩
  · exact .rfl
  · exact (h.passable_of_bmc (.inl rfl)).symm.trans (hspec.trans (h'.passable_of_bmc (.inl rfl)))
  · exact (h.passable_of_bmc (.inr rfl)).symm.trans (hspec.trans (h'.passable_of_bmc (.inr rfl)))

/-- The step hands out no record. -/
def Step.ShowsNoRecord : Step → Prop
  | .get _ => False
  | _ => True

namespace World

section

variable {σ : Type} {R : σ → σ → Prop} {Match : PowerCommand → PowerCommand → Prop} {w v : World σ}

/-- The worlds differ in passwords of management controllers at most, and none is missing in one of them and
there in the other. How their backends are related is said besides. -/
structure AlikeButPasswords (R : σ → σ → Prop) (w v : World σ) : Prop where
  store : w.store.redacted = v.store.redacted
  plant : R w.plant v.plant
  metrics : w.metrics = v.metrics
  threshold : w.threshold = v.threshold
  requeue : w.requeue = v.requeue

theorem AlikeButPasswords.conclude (h : AlikeButPasswords R w v) (name : String) (version : Option String)
    (observed status : ServerStatus) (result : Reconciled) :
    (w.conclude name version observed status result).1 =
        (v.conclude name version observed status result).1 ∧
      AlikeButPasswords R (w.conclude name version observed status result).2
        (v.conclude name version observed status result).2 := by
  unfold World.conclude persist
  by_cases hs : status = observed
  · rw [if_pos hs, if_pos hs]
    exact ⟨rfl, h⟩
  · rw [if_neg hs, if_neg hs]
    have hwrite :
        (w.store.updateStatus name version status).1 = (v.store.updateStatus name version status).1 ∧
        (w.store.updateStatus name version status).2.redacted =
          (v.store.updateStatus name version status).2.redacted :=
      Store.write_alike h.store name version fun _ => rfl
    obtain ⟨hresult, hstore⟩ := hwrite
    simp only [hresult]
    cases (v.store.updateStatus name version status).1 with
    | error e => exact ⟨rfl, { h with store := hstore }⟩
    | ok _ => exact ⟨rfl, { h with store := hstore }⟩

variable [Backends σ]

theorem AlikeButPasswords.execute (h : AlikeButPasswords R w v) (hR : Backends.Conceals R Match)
    {c c' : PowerCommand} (hc : Match c c') :
    (w.execute c).1 = (v.execute c').1 ∧ AlikeButPasswords R (w.execute c).2 (v.execute c').2 := by
  obtain ⟨hresult, hplant⟩ := hR.execute h.plant hc
  have hlabel : c.label = c'.label := by
    rw [← c.label_redacted, hR.redacted_eq hc, c'.label_redacted]
  refine ⟨congrArg (Except.mapError ActionError.power) hresult, { h with plant := hplant, metrics := ?_ }⟩
  simp only [World.execute, hresult, hlabel, h.metrics]

theorem AlikeButPasswords.act (h : AlikeButPasswords R w v) (hR : Backends.Conceals R Match)
    {spec spec' : ServerSpec} (hspec : spec.redacted = spec'.redacted) {desired : PowerState}
    (hmatch : ∀ c c', spec.plan desired = .ok c → spec'.plan desired = .ok c' →
      c.redacted = c'.redacted → Match c c') :
    (w.act spec desired).1 = (v.act spec' desired).1 ∧
      AlikeButPasswords R (w.act spec desired).2 (v.act spec' desired).2 := by
  unfold World.act
  rcases ServerSpec.plan_alike hspec desired with ⟨e, hs, hs'⟩ | ⟨c, c', hs, hs', hredacted⟩
  · rw [hs, hs']
    exact ⟨rfl, h⟩
  · have hc := hmatch c c' hs hs' hredacted
    rw [hs, hs']
    exact h.execute hR hc

theorem AlikeButPasswords.reconcileMachine (h : AlikeButPasswords R w v)
    (hR : Backends.Conceals R Match) {server server' : Server} (hserver : server.redacted = server'.redacted)
    (hmatch : ∀ c c', server.spec.plan server.spec.desired = .ok c →
      server'.spec.plan server'.spec.desired = .ok c' → c.redacted = c'.redacted → Match c c')
    (name address : String) (now : Timestamp) :
    (w.reconcileMachine name server address now).1 = (v.reconcileMachine name server' address now).1 ∧
      AlikeButPasswords R (w.reconcileMachine name server address now).2
        (v.reconcileMachine name server' address now).2 := by
  have hdesired := Server.desired_of_redacted hserver
  -- No branch up to the plan looks at a password, so the two worlds take the same one.
  obtain ⟨hreachable, hplant⟩ := hR.probe h.plant address
  have hprobed : AlikeButPasswords R (w.probe address).2 (v.probe address).2 := { h with plant := hplant }
  have hanswer : (w.probe address).1 = (v.probe address).1 := hreachable
  unfold World.reconcileMachine
  simp only [hanswer, Server.statusOrDefault_of_redacted hserver, Server.version?_of_redacted hserver, hdesired]
  generalize server'.statusOrDefault.observe (v.probe address).1 now = observed
  obtain ⟨observation, status⟩ := observed
  cases observation with
  | settled => exact hprobed.conclude ..
  | waiting =>
    simp only [hprobed.requeue]
    exact hprobed.conclude ..
  | observed =>
    dsimp only
    split
    · exact hprobed.conclude ..
    · obtain ⟨hresult, hacted⟩ := hprobed.act hR (Server.spec_of_redacted hserver) (hdesired ▸ hmatch)
      simp only [hresult, hacted.requeue]
      exact hacted.conclude ..

/-- Over backends that conceal passwords, a reconciliation ends alike in worlds that differ in passwords at
most, and leaves such worlds. -/
theorem AlikeButPasswords.reconcile (h : AlikeButPasswords R w v) (hR : Backends.Conceals R Match)
    (name : String)
    (hmatch : ∀ server server', w.store.get name = some server → v.store.get name = some server' →
      ∀ c c', server.spec.plan server.spec.desired = .ok c →
        server'.spec.plan server'.spec.desired = .ok c' → c.redacted = c'.redacted → Match c c')
    (now : Timestamp) :
    (w.reconcile name now).1 = (v.reconcile name now).1 ∧
      AlikeButPasswords R (w.reconcile name now).2 (v.reconcile name now).2 := by
  have hrecord : (w.reconcileRecord name now).1 = (v.reconcileRecord name now).1 ∧
      AlikeButPasswords R (w.reconcileRecord name now).2 (v.reconcileRecord name now).2 := by
    have hget : (w.store.get name).map Server.redacted = (v.store.get name).map Server.redacted := by
      rw [← w.store.get_redacted, h.store, v.store.get_redacted]
    unfold reconcileRecord
    cases hw : w.store.get name <;> cases hv : v.store.get name <;> rw [hw, hv] at hget
    · exact ⟨rfl, h⟩
    · cases hget
    · cases hget
    · rename_i server server'
      have hserver : server.redacted = server'.redacted := Option.some.inj hget
      have hprecheck : server'.statusOrDefault.precheck server.spec w.threshold =
          server'.statusOrDefault.precheck server'.spec v.threshold := by
        rw [← ServerStatus.precheck_redacted, Server.spec_of_redacted hserver,
          ServerStatus.precheck_redacted, h.threshold]
      simp only [Server.statusOrDefault_of_redacted hserver, Server.version?_of_redacted hserver, hprecheck]
      cases server'.statusOrDefault.precheck server'.spec v.threshold with
      | skip => exact ⟨rfl, h⟩
      | frozen status => exact h.conclude ..
      | missingAddress status => exact h.conclude ..
      | proceed address => exact h.reconcileMachine hR hserver (hmatch server server' hw hv) name address now
  obtain ⟨hresult, hafter⟩ := hrecord
  refine ⟨hresult, { hafter with metrics := ?_ }⟩
  simp only [World.reconcile, hresult, hafter.metrics]

end

/-- Over real machines, tools are run with the same command lines, whichever of two passwords the record has
that can both be passed to a tool or both not. -/
theorem AlikeButPasswords.reconcile_rig {a b : World Rig} (h : a.AlikeButPasswords Rig.ShowsAs b)
    {name : String}
    (hpassable : ∀ server server', a.store.get name = some server → b.store.get name = some server' →
      (server.spec.Passable ↔ server'.spec.Passable)) (now : Timestamp) :
    (a.reconcile name now).1 = (b.reconcile name now).1 ∧
      (a.reconcile name now).2.AlikeButPasswords Rig.ShowsAs (b.reconcile name now).2 :=
  h.reconcile Rig.conceals name (fun server server' hg hg' _ _ hc hc' hredacted =>
    ⟨hredacted, ServerSpec.passable_iff_of_plan (hpassable server server' hg hg') hc hc' hredacted⟩) now

variable {w v : World}

def redacted (w : World) : World := { w with store := w.store.redacted }

theorem redacted_redacted (w : World) : w.redacted.redacted = w.redacted := by
  simp only [redacted, Store.redacted_redacted]

/-! ## Two runs -/

/-- The worlds differ in passwords of management controllers at most, and none is missing in one of
them and there in the other. -/
def SameButPasswords (w v : World) : Prop := w.redacted = v.redacted

theorem alikeButPasswords_iff : w.AlikeButPasswords Eq v ↔ w.SameButPasswords v := by
  constructor
  · rintro ⟨hstore, hplant, hmetrics, hthreshold, hrequeue⟩
    simp only [SameButPasswords, redacted, hstore, hplant, hmetrics, hthreshold, hrequeue]
  · intro h
    exact ⟨(congrArg World.store h :), (congrArg World.plant h :), (congrArg World.metrics h :),
      (congrArg World.threshold h :), (congrArg World.requeue h :)⟩

theorem hold_redacted {α : Type} {session : Session α} (h : session.Blind) (w : World) :
    (w.redacted.hold session).1 = (w.hold session).1 ∧
      (w.redacted.hold session).2.SameButPasswords (w.hold session).2 := by
  have hrun : session.run w.redacted.store = ((session.run w.store).1, (session.run w.store).2.redacted) :=
    Session.run_redacted h w.store
  unfold hold
  rw [hrun]
  exact ⟨rfl, redacted_redacted { w with store := (session.run w.store).2 }⟩

theorem reconcile_redacted (w : World) (name : String) (now : Timestamp) :
    (w.redacted.reconcile name now).1 = (w.reconcile name now).1 ∧
      (w.redacted.reconcile name now).2.SameButPasswords (w.reconcile name now).2 := by
  have hsame : w.redacted.AlikeButPasswords Eq w := alikeButPasswords_iff.2 w.redacted_redacted
  obtain ⟨hresult, hafter⟩ :=
    hsame.reconcile Plant.conceals name (fun _ _ _ _ _ _ _ _ hredacted => hredacted) now
  exact ⟨hresult, alikeButPasswords_iff.1 hafter⟩

/-- A step that tells what a reconciliation or a session ends with. -/
theorem outcome_of_map {α : Type} {f : α → Outcome} {x y : α × World}
    (h : x.1 = y.1 ∧ x.2.SameButPasswords y.2) :
    (x.map f id).1 = (y.map f id).1 ∧ (x.map f id).2.redacted = (y.map f id).2.redacted :=
  ⟨congrArg f h.1, h.2⟩

/-- A step that tells how a write went which leaves passwords alone. -/
theorem outcome_of_write (w : World) (name : String) (version : Option String)
    {change : Server → Server} (hchange : ∀ server, change server.redacted = (change server).redacted) :
    let x := w.redacted.store.write name version change
    let y := w.store.write name version change
    Outcome.written x.1 = .written y.1 ∧
      ({ w with store := x.2 } : World).redacted = ({ w with store := y.2 } : World).redacted := by
  intro x y
  have hx : x = (y.1, y.2.redacted) := w.store.write_redacted name version change hchange
  rw [hx]
  exact ⟨rfl, redacted_redacted { w with store := y.2 }⟩

theorem step_redacted {s : Step} (h : s.ShowsNoRecord) (w : World) :
    (w.redacted.step s).1 = (w.step s).1 ∧ (w.redacted.step s).2.redacted = (w.step s).2.redacted := by
  cases s with
  | get => cases h
  | reconcile name now => exact outcome_of_map (w.reconcile_redacted name now.onClock)
  | pool call => exact outcome_of_map (hold_redacted (Pool.discreet_session call).blind w)
  | rpc method request => exact outcome_of_map (hold_redacted (Pool.serve_blind method request) w)
  | rpcBytes writer target request =>
    exact outcome_of_map (hold_redacted (Pool.serveBytes_blind writer target request) w)
  | updatePowerState name version state =>
    have hchange : ∀ server : Server,
        server.redacted.withPowerState state = (server.withPowerState state).redacted := fun _ => rfl
    exact w.outcome_of_write name version hchange
  | updateStatus name version status =>
    have hchange : ∀ server : Server,
        server.redacted.withStatus status = (server.withStatus status).redacted := fun _ => rfl
    exact w.outcome_of_write name version hchange
  | list => exact ⟨congrArg Outcome.names w.store.names_redacted, redacted_redacted w⟩
  | insert server =>
    exact ⟨rfl, congrArg (fun store => { w with store }) (w.store.insert_redacted server)⟩
  | conflictNext name => exact ⟨rfl, redacted_redacted { w with store := w.store.conflictNext name }⟩
  | _ => exact ⟨rfl, congrArg (fun store => World.mk store _ _ _ _) w.store.redacted_redacted⟩

theorem step_sameButPasswords {s : Step} (hs : s.ShowsNoRecord) (h : w.SameButPasswords v) :
    (w.step s).1 = (v.step s).1 ∧ (w.step s).2.SameButPasswords (v.step s).2 := by
  obtain ⟨hw, hw'⟩ := step_redacted hs w
  obtain ⟨hv, hv'⟩ := step_redacted hs v
  unfold SameButPasswords at h ⊢
  rw [← hw, ← hv, ← hw', ← hv', h]
  exact ⟨rfl, rfl⟩

theorem SameButPasswords.metrics_eq (h : w.SameButPasswords v) : w.metrics = v.metrics :=
  (congrArg World.metrics h :)

theorem SameButPasswords.plant_eq (h : w.SameButPasswords v) : w.plant = v.plant :=
  (congrArg World.plant h :)

theorem SameButPasswords.writes_eq (h : w.SameButPasswords v) : w.store.writes = v.store.writes :=
  (congrArg (fun w : World => w.store.writes) h :)

theorem SameButPasswords.status_eq (h : w.SameButPasswords v) (name : String) :
    (w.store.get name).map Server.status = (v.store.get name).map Server.status := by
  have hstore : w.store.redacted = v.store.redacted := congrArg World.store h
  have hstatus : ∀ s : Store, (s.get name).map Server.status = (s.redacted.get name).map Server.status := by
    intro s
    rw [s.get_redacted, Option.map_map]
    rfl
  rw [hstatus w.store, hstatus v.store, hstore]

/-- What a report shows besides records: the answer, the calls, and the writes so far. -/
def Report.shown (r : Report) : Outcome × Plant × Nat := (r.outcome, r.calls, r.writes)

theorem run_sameButPasswords {steps : List Step} (hs : ∀ s ∈ steps, s.ShowsNoRecord)
    (h : w.SameButPasswords v) :
    (w.run steps).map Report.shown = (v.run steps).map Report.shown ∧
      (w.after steps).SameButPasswords (v.after steps) := by
  induction steps generalizing w v with
  | nil => exact ⟨rfl, h⟩
  | cons s rest ih =>
    obtain ⟨hs, hrest⟩ := List.forall_mem_cons.1 hs
    obtain ⟨houtcome, hnext⟩ := step_sameButPasswords hs h
    obtain ⟨hshown, hafter⟩ := ih hrest hnext
    refine ⟨?_, hafter⟩
    simp only [run, List.map_cons, hshown, Report.shown, houtcome, hnext.plant_eq, hnext.writes_eq,
      h.plant_eq]

end World

namespace World

variable {w v : World}

/-! ## Main theorem -/

/-- Passwords of management controllers do not leak:
* worlds that differ in them at most show the same in a run, and are left with the same counters,
  calls and statuses, if no step hands out a record;
* the tool that is given a password ends in the same way and is run with the same command line as
  with another, which is found in its environment alone. Only a password that cannot be passed to a
  tool is told from one that can;
* the two together: over real machines a reconciliation ends alike, has the same datagrams sent and
  the same command lines run in the same order, and leaves the same counters and statuses. -/
theorem passwords_do_not_leak (h : w.SameButPasswords v) {steps : List Step}
    (hsteps : ∀ s ∈ steps, s.ShowsNoRecord) :
    ((w.run steps).map Report.shown = (v.run steps).map Report.shown ∧
      (w.after steps).metrics = (v.after steps).metrics ∧
      (w.after steps).plant = (v.after steps).plant ∧
      (∀ name, ((w.after steps).store.get name).map Server.status =
        ((v.after steps).store.get name).map Server.status) ∧
      (w.after steps).SameButPasswords (v.after steps)) ∧
    (∀ (c : IpmiClient) (address username p q : String) (t : Toolbox), (Passable p ↔ Passable q) →
      (c.powerOn address username p t).1 = (c.powerOn address username q t).1 ∧
      (c.powerOff address username p t).1 = (c.powerOff address username q t).1 ∧
      (c.powerStatus address username p t).1 = (c.powerStatus address username q t).1 ∧
      ∀ action, ∃ result ending script, ∀ password ∈ [p, q],
        c.perform address username password action t =
          (result,
            { t with
              script := script
              log := t.log ++ [.ran
                { program := c.program
                  arguments := ["-I", "lanplus", "-H", address, "-U", username, "-E", "chassis", "power",
                    action.name]
                  environment := [("IPMI_PASSWORD", password)] } ending] })) ∧
    ∀ (a b : World Rig) (name : String) (now : Timestamp), a.AlikeButPasswords Rig.ShowsAs b →
      (∀ server server', a.store.get name = some server → b.store.get name = some server' →
        (server.spec.Passable ↔ server'.spec.Passable)) →
      (a.reconcile name now).1 = (b.reconcile name now).1 ∧
        (a.reconcile name now).2.AlikeButPasswords Rig.ShowsAs (b.reconcile name now).2 := by
  obtain ⟨hshown, hafter⟩ := run_sameButPasswords hsteps h
  refine ⟨⟨hshown, hafter.metrics_eq, hafter.plant_eq, hafter.status_eq, hafter⟩, ?_,
    fun a b name now halike hpassable => halike.reconcile_rig hpassable now⟩
  intro c address username p q t hpq
  have hresult : ∀ action, (c.perform address username p action t).1 =
      (c.perform address username q action t).1 := by
    intro action
    obtain ⟨result, ending, script, hperform⟩ := c.perform_alike address username action t hpq
    rw [hperform p List.mem_cons_self, hperform q (List.mem_cons_of_mem _ List.mem_cons_self)]
  exact ⟨congrArg (Except.map fun _ => ()) (hresult .on), congrArg (Except.map fun _ => ()) (hresult .off),
    congrArg (fun r => Except.bind r IpmiClient.readStatus) (hresult .status),
    fun action => c.perform_alike address username action t hpq⟩

/-- A machine with a management controller that fails to switch it on, under two passwords. -/
theorem passwords_do_not_leak_ipmi :
    let machine (password : String) : Server :=
      { metadata := { name := some "m1" }
        spec :=
          { powerState := some .on
            controlType := some .ipmi
            control := { ipmi := some { address := "10.0.1.5", username := "u", password } } } }
    let world (password : String) := start [machine password] [] 3 (.ofSeconds 60)
    let steps : List Step := [.failWith .bmc "busy", .reconcile "m1" .noon, .exposition]
    let client : IpmiClient := ⟨"ipmitool", .ofSeconds 30⟩
    let tools : Toolbox := { installed := ["ipmitool"] }
    let rig : Rig :=
      { waker := ⟨9, "255.255.255.255"⟩
        ssh := { keyPath := none, defaultUser := "root", timeout := .ofSeconds 10 }
        sshDeadline := .ofSeconds 15
        sshDeadline_eq := rfl
        ipmi := client
        resolve := .numeric
        tools }
    let real (password : String) : World Rig := { world password with plant := rig }
    (world "secret").SameButPasswords (world "hunter2") ∧
      ((world "secret").run steps).map Report.shown = ((world "hunter2").run steps).map Report.shown ∧
      (Passable "secret" ↔ Passable "hunter2") ∧
      (client.powerOn "10.0.1.5" "u" "secret" tools).1 =
        (client.powerOn "10.0.1.5" "u" "hunter2" tools).1 ∧
      (real "secret").AlikeButPasswords Rig.ShowsAs (real "hunter2") ∧
      ((real "secret").reconcile "m1" .noon).2.AlikeButPasswords Rig.ShowsAs
        ((real "hunter2").reconcile "m1" .noon).2 ∧
      ((real "secret").reconcile "m1" .noon).2.plant.tools.runs =
        [{ program := "ipmitool"
           arguments := ["-I", "lanplus", "-H", "10.0.1.5", "-U", "u", "-E", "chassis", "power", "on"]
           environment := [("IPMI_PASSWORD", "secret")] }] := by
  intro machine world steps client tools rig real
  have hsame : (world "secret").SameButPasswords (world "hunter2") := rfl
  have hsteps : ∀ s ∈ steps, s.ShowsNoRecord := by simp [steps, Step.ShowsNoRecord]
  have hpassable : Passable "secret" ↔ Passable "hunter2" := by decide
  have halike : (real "secret").AlikeButPasswords Rig.ShowsAs (real "hunter2") :=
    ⟨rfl, rfl, rfl, rfl, rfl⟩
  have hspec (password : String) : (machine password).spec.Passable ↔ Passable password := by
    simp [machine, ServerSpec.Passable]
  have hrecords : ∀ server server', (real "secret").store.get "m1" = some server →
      (real "hunter2").store.get "m1" = some server' → (server.spec.Passable ↔ server'.spec.Passable) := by
    rintro _ _ ⟨⟩ ⟨⟩
    exact (hspec "secret").trans (hpassable.trans (hspec "hunter2").symm)
  obtain ⟨⟨hshown, -⟩, htool, hreal⟩ := passwords_do_not_leak hsame hsteps
  exact ⟨hsame, hshown, hpassable,
    (htool client "10.0.1.5" "u" "secret" "hunter2" tools hpassable).1,
    halike, (hreal _ _ "m1" .noon halike hrecords).2, by decide⟩

/-- A password that cannot be passed to a tool is refused, where another is taken. -/
theorem unpassable_password_is_told :
    let client : IpmiClient := ⟨"ipmitool", .ofSeconds 30⟩
    let tools : Toolbox := { installed := ["ipmitool"] }
    (client.powerOn "10.0.1.5" "u" "ab" tools).1 = .ok () ∧
      (client.powerOn "10.0.1.5" "u" "a\x00b" tools).1 = .error (.io Toolbox.nulMessage) ∧
      (client.powerOn "10.0.1.5" "u" "a\x00b" tools).2.runs ≠
        (client.powerOn "10.0.1.5" "u" "ab" tools).2.runs := by
  decide

end World

end MetalPool
