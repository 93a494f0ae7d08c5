import MetalPool.Power.Command
import MetalPool.Proofs.Store.Requests
/-!
# Records without their passwords

A redacted record has a mask in place of the password of its management
controller, and nothing where there is none: two records that redact to the same
differ in passwords at most. Stores answer requests alike before and after it,
but for the records that they hand out (`Store.serve_redacted`).

A session is blind to passwords if it goes on alike whatever they are in the
records it gets, and then it ends alike in stores that redact to the same
(`Session.run_redacted`).
-/

namespace MetalPool

/-! ## Records -/

/-- What stands for a password. -/
def passwordMask : String := "***"

/-- The parameters with their password masked, if they have one. -/
def IpmiControl.redacted (c : IpmiControl) : IpmiControl :=
  { c with password := if c.password = "" then "" else passwordMask }

/-- Redacted parameters show whether there is a password, and nothing else of it. -/
theorem IpmiControl.redacted_eq_iff (c c' : IpmiControl) :
    c.redacted = c'.redacted ↔
      c.address = c'.address ∧ c.username = c'.username ∧ (c.password = "" ↔ c'.password = "") := by
  unfold redacted
  by_cases h : c.password = "" <;> by_cases h' : c'.password = "" <;> simp [h, h', passwordMask]

theorem IpmiControl.redacted_redacted (c : IpmiControl) : c.redacted.redacted = c.redacted := by
  by_cases h : c.password = "" <;> simp [redacted, h, passwordMask]

namespace ServerSpec

def redacted (spec : ServerSpec) : ServerSpec :=
  { spec with control := { spec.control with ipmi := spec.control.ipmi.map IpmiControl.redacted } }

theorem redacted_redacted (spec : ServerSpec) : spec.redacted.redacted = spec.redacted := by
  simp [redacted, Function.comp_def, IpmiControl.redacted_redacted]

theorem address?_redacted (spec : ServerSpec) : spec.redacted.address? = spec.address? := by
  unfold address? redacted
  cases spec.controlType with
  | none => rfl
  | some control =>
    cases control with
    | wol => rfl
    | ipmi => simp [IpmiControl.redacted, Function.comp_def]

end ServerSpec

/-- The command with the mask for a password. -/
def PowerCommand.redacted : PowerCommand → PowerCommand
  | .bmcOn address username _ => .bmcOn address username passwordMask
  | .bmcOff address username _ => .bmcOff address username passwordMask
  | c => c

theorem IpmiControl.plan_redacted (c : IpmiControl) (desired : PowerState) :
    c.redacted.plan desired = (c.plan desired).map PowerCommand.redacted := by
  have hempty : c.redacted.password = "" ↔ c.password = "" := by
    by_cases h : c.password = "" <;> simp [redacted, h, passwordMask]
  have haddress : c.redacted.address = c.address := rfl
  have husername : c.redacted.username = c.username := rfl
  unfold plan
  simp only [haddress, husername, hempty]
  split
  · rfl
  · split
    · rfl
    · rename_i h
      have hpassword : c.redacted.password = passwordMask := if_neg fun hp => h (.inr hp)
      rw [hpassword]
      cases desired <;> rfl

/-- A password has a say in whether a command can be planned, and then in the command, only by being
there. -/
theorem ServerSpec.plan_redacted (spec : ServerSpec) (desired : PowerState) :
    spec.redacted.plan desired = (spec.plan desired).map PowerCommand.redacted := by
  unfold plan redacted
  cases spec.controlType with
  | none => rfl
  | some control =>
    cases control with
    | wol =>
      cases spec.control.wol with
      | none => rfl
      | some wol => cases desired <;> simp only [WolControl.plan] <;> split <;> rfl
    | ipmi =>
      cases spec.control.ipmi with
      | none => rfl
      | some ipmi => exact ipmi.plan_redacted desired

namespace Server

def redacted (s : Server) : Server := { s with spec := s.spec.redacted }

theorem redacted_redacted (s : Server) : s.redacted.redacted = s.redacted := by
  simp only [redacted, ServerSpec.redacted_redacted]

@[simp] theorem name_redacted (s : Server) : s.redacted.name = s.name := rfl

@[simp] theorem version?_redacted (s : Server) : s.redacted.version? = s.version? := rfl

end Server

/-! ## Stores -/

namespace Store

def redacted (s : Store) : Store := { s with records := s.records.map Server.redacted }

theorem redacted_redacted (s : Store) : s.redacted.redacted = s.redacted := by
  have : Server.redacted ∘ Server.redacted = Server.redacted := funext Server.redacted_redacted
  simp only [redacted, SortedMap.map_map, this]

theorem get_redacted (s : Store) (name : String) :
    s.redacted.get name = (s.get name).map Server.redacted :=
  SortedMap.get?_map ..

theorem list_redacted (s : Store) : s.redacted.list = s.list.map Server.redacted :=
  SortedMap.values_map ..

theorem names_redacted (s : Store) : s.redacted.names = s.names := SortedMap.keys_map ..

theorem insert_redacted (s : Store) (server : Server) :
    (s.redacted.insert server).redacted = (s.insert server).redacted := by
  have : Server.redacted ∘ Server.redacted = Server.redacted := funext Server.redacted_redacted
  simp only [redacted, insert, SortedMap.map_insert, SortedMap.map_map, this]

/-- A write that leaves passwords alone. -/
theorem write_redacted (s : Store) (name : String) (expected : Option String) (change : Server → Server)
    (hchange : ∀ server, change server.redacted = (change server).redacted) :
    s.redacted.write name expected change =
      ((s.write name expected change).1, (s.write name expected change).2.redacted) := by
  unfold write
  have hconflicts : s.redacted.conflicts = s.conflicts := rfl
  have hget : s.redacted.records.get? name = (s.records.get? name).map Server.redacted :=
    SortedMap.get?_map ..
  rw [hconflicts]
  split
  · rfl
  · dsimp only
    rw [hget]
    cases s.records.get? name with
    | none => rfl
    | some server =>
      dsimp only [Option.map_some]
      rw [Server.version?_redacted, hchange]
      split
      · rfl
      · simp only [redacted, SortedMap.map_insert]
        rfl

end Store

/-- The answer with the records in it redacted. -/
def StoreRequest.redact : (r : StoreRequest) → r.Answer → r.Answer
  | .get _ => Option.map Server.redacted
  | .list => List.map Server.redacted
  | .updatePowerState .. => id
  | .updateStatus .. => id

theorem Store.serve_redacted (r : StoreRequest) (s : Store) :
    serve r s.redacted = ((serve r s).1.map r.redact, (serve r s).2.redacted) := by
  cases r with
  | get name => exact congrArg (fun answer => (Except.ok answer, s.redacted)) (s.get_redacted name)
  | list => exact congrArg (fun answer => (Except.ok answer, s.redacted)) s.list_redacted
  | updatePowerState name version state =>
    refine (s.write_redacted name version (·.withPowerState state) fun _ => rfl).trans ?_
    exact Prod.ext (congrFun Except.map_id _).symm rfl
  | updateStatus name version status =>
    refine (s.write_redacted name version (·.withStatus status) fun _ => rfl).trans ?_
    exact Prod.ext (congrFun Except.map_id _).symm rfl

/-! ## Sessions -/

namespace Session

variable {α β : Type}

/-- The session goes on alike whatever the passwords are in the records it gets. -/
def Blind : Session α → Prop
  | .done _ => True
  | .ask r next => ∀ answer, (next answer).Blind ∧ next (answer.map r.redact) = next answer

theorem blind_bind {session : Session α} {next : α → Session β} (h : session.Blind)
    (hn : ∀ a, (next a).Blind) : (session >>= next).Blind := by
  induction session with
  | done a => exact hn a
  | ask r rest ih =>
    intro answer
    obtain ⟨hrest, hsame⟩ := h answer
    exact ⟨ih answer hrest, congrArg (· >>= next) hsame⟩

/-- A blind session ends alike in stores that redact to the same. -/
theorem run_redacted {session : Session α} (h : session.Blind) (s : Store) :
    session.run s.redacted = ((session.run s).1, (session.run s).2.redacted) := by
  induction session generalizing s with
  | done a => rfl
  | ask r next ih =>
    obtain ⟨hnext, hsame⟩ := h (Store.serve r s).1
    refine Eq.trans ?_ (ih (Store.serve r s).1 hnext (Store.serve r s).2)
    unfold run
    rw [hold, Store.serve_redacted]
    exact congrArg (fun rest => rest.hold Store.serve (Store.serve r s).2.redacted) hsame

end Session

end MetalPool
