import MetalPool.Plant
import MetalPool.Power.Rig
import MetalPool.Proofs.Store.Redacted
/-!
# Backends that conceal passwords

Backends conceal passwords if they answer alike whatever the password is that a
command hands them, and show nothing of it (`Backends.Conceals`). Machines to rehearse
on do (`Plant.conceals`), and so do real ones (`Rig.conceals`): the tool that is given
a password is run with one command line whatever the password is, and has it in its
environment alone. Only a password that cannot be passed to a tool is told from one
that can.
-/

namespace MetalPool

/-- Backends in related states answer alike and stay related, whichever they get of two commands that
match; such commands are the same but for their passwords. -/
structure Backends.Conceals {σ : Type} [Backends σ] (R : σ → σ → Prop)
    (Match : PowerCommand → PowerCommand → Prop) : Prop where
  redacted_eq {c c' : PowerCommand} (hc : Match c c') : c.redacted = c'.redacted
  probe {p q : σ} (h : R p q) (address : String) :
    (Backends.probe p address).1 = (Backends.probe q address).1 ∧
      R (Backends.probe p address).2 (Backends.probe q address).2
  execute {p q : σ} {c c' : PowerCommand} (h : R p q) (hc : Match c c') :
    (Backends.execute p c).1 = (Backends.execute q c').1 ∧
      R (Backends.execute p c).2 (Backends.execute q c').2

/-! ## Machines to rehearse on -/

/-- The machines to rehearse on take any password. -/
theorem Plant.execute_redacted (p : Plant) (c : PowerCommand) : p.execute c.redacted = p.execute c := by
  cases c <;> rfl

theorem Plant.conceals :
    Backends.Conceals (σ := Plant) Eq fun c c' => c.redacted = c'.redacted where
  redacted_eq hc := hc
  probe := by
    rintro p _ rfl address
    exact ⟨rfl, rfl⟩
  execute := by
    rintro p _ c c' rfl hc
    have hsame : p.execute c = p.execute c' := by
      rw [← p.execute_redacted c, hc, p.execute_redacted]
    exact ⟨congrArg Prod.fst hsame, congrArg Prod.snd hsame⟩

/-! ## The tool that is given the password -/

namespace Toolbox

variable {t u : Toolbox}

/-- How a run ends hangs on the program, on whether a word of the command line cannot be passed, and on
what tools there are and how their runs end. -/
theorem run_alike {i j : Invocation} (hprogram : i.program = j.program) (hnul : holdsNul i = holdsNul j)
    (hinstalled : t.installed = u.installed) (hscript : t.script = u.script) :
    ∃ ending script,
      t.run i = (ending, { t with script := script, log := t.log ++ [.ran i ending] }) ∧
      u.run j = (ending, { u with script := script, log := u.log ++ [.ran j ending] }) := by
  unfold run
  rw [← hnul, ← hprogram, ← hinstalled, ← hscript]
  split
  · exact ⟨_, t.script, rfl, by rw [hscript]⟩
  · split
    · exact ⟨_, t.script, rfl, by rw [hscript]⟩
    · exact ⟨_, _, rfl, rfl⟩

end Toolbox

/-- The command line without the values that its environment adds. -/
def Invocation.shown (i : Invocation) : Invocation :=
  { i with environment := i.environment.map fun entry => (entry.1, "") }

def ToolEvent.shown : ToolEvent → ToolEvent
  | .ran i ending => .ran i.shown ending
  | .paused length => .paused length

namespace Toolbox

variable {t u : Toolbox}

def shown (t : Toolbox) : Toolbox := { t with log := t.log.map ToolEvent.shown }

theorem installed_of_shown (h : t.shown = u.shown) : t.installed = u.installed :=
  (congrArg Toolbox.installed h :)

theorem script_of_shown (h : t.shown = u.shown) : t.script = u.script :=
  (congrArg Toolbox.script h :)

theorem log_of_shown (h : t.shown = u.shown) : t.log.map ToolEvent.shown = u.log.map ToolEvent.shown :=
  (congrArg Toolbox.log h :)

/-- Runs that show the same are noted so that they show the same. -/
theorem run_shown {i j : Invocation} (hij : i.shown = j.shown) (hnul : holdsNul i = holdsNul j)
    (h : t.shown = u.shown) :
    (t.run i).1 = (u.run j).1 ∧ (t.run i).2.shown = (u.run j).2.shown := by
  have hprogram : i.program = j.program := (congrArg Invocation.program hij :)
  obtain ⟨ending, script, ht, hu⟩ := run_alike hprogram hnul (installed_of_shown h) (script_of_shown h)
  rw [ht, hu]
  simp only [shown, List.map_append, List.map_cons, List.map_nil, log_of_shown h, installed_of_shown h,
    ToolEvent.shown, hij, and_self]

theorem pause_shown (h : t.shown = u.shown) (d : Span) : (t.pause d).shown = (u.pause d).shown := by
  simp only [shown, pause, List.map_append, log_of_shown h, installed_of_shown h, script_of_shown h]

end Toolbox

section

variable {t u : Toolbox}

theorem PingProbe.search_shown (p : PingProbe) (address : String) (n : Nat) (h : t.shown = u.shown) :
    (p.search address n t).1 = (p.search address n u).1 ∧
      (p.search address n t).2.shown = (p.search address n u).2.shown := by
  induction n generalizing t u with
  | zero => exact ⟨rfl, h⟩
  | succ n ih =>
    obtain ⟨hending, hshown⟩ := Toolbox.run_shown (i := p.invocation address) rfl rfl h
    simp only [search, hending]
    split
    · exact ⟨rfl, hshown⟩
    · split
      · exact ⟨rfl, hshown⟩
      · exact ih (Toolbox.pause_shown hshown _)

theorem SshShutdown.shutdownBy_shown (s : SshShutdown) (deadline : Span) (host : String)
    (user : Option String) (h : t.shown = u.shown) :
    (s.shutdownBy deadline host user t).1 = (s.shutdownBy deadline host user u).1 ∧
      (s.shutdownBy deadline host user t).2.shown = (s.shutdownBy deadline host user u).2.shown := by
  unfold shutdownBy
  cases s.keyPath with
  | none => exact ⟨rfl, h⟩
  | some key =>
    obtain ⟨hending, hshown⟩ := Toolbox.run_shown (i := s.invocation key host user) rfl rfl h
    simp only [hending, true_and]
    exact hshown

end

/-- The password can be passed to a tool. -/
def Passable (password : String) : Prop := '\x00' ∉ password.toList

instance (password : String) : Decidable (Passable password) :=
  inferInstanceAs (Decidable ('\x00' ∉ password.toList))

namespace IpmiClient

variable {p q : String} {t u : Toolbox}

theorem holdsNul_invocation (c : IpmiClient) (address username : String) (action : ChassisAction)
    (h : Passable p ↔ Passable q) :
    Toolbox.holdsNul (c.invocation address username p action) =
      Toolbox.holdsNul (c.invocation address username q action) := by
  have hpq : p.toList.contains '\x00' = q.toList.contains '\x00' := by
    rw [Bool.eq_iff_iff, List.contains_iff_mem, List.contains_iff_mem]
    exact Decidable.not_iff_not.1 h
  simp only [Toolbox.holdsNul, invocation, List.map_cons, List.map_nil, List.cons_append,
    List.nil_append, List.any_cons, List.any_nil, hpq]

/-- Both passwords get the same result, and the one command line is noted with each. -/
theorem perform_alike (c : IpmiClient) (address username : String) (action : ChassisAction) (t : Toolbox)
    (h : Passable p ↔ Passable q) :
    ∃ result ending script, ∀ password ∈ [p, q],
      c.perform address username password action t =
        (result,
          { t with
            script := script
            log := t.log ++ [.ran
              { program := c.program
                arguments := ["-I", "lanplus", "-H", address, "-U", username, "-E", "chassis", "power",
                  action.name]
                environment := [("IPMI_PASSWORD", password)] } ending] }) := by
  have hprogram : (c.invocation address username p action).program =
      (c.invocation address username q action).program := rfl
  obtain ⟨ending, script, hp, hq⟩ := Toolbox.run_alike (t := t) hprogram
    (c.holdsNul_invocation address username action h) rfl rfl
  refine ⟨(c.perform address username p action t).1, ending, script, fun password hpassword => ?_⟩
  unfold perform
  rw [hp]
  rcases List.mem_cons.1 hpassword with rfl | hpassword
  · rw [hp]
    rfl
  · rw [List.mem_singleton.1 hpassword, hq]
    rfl

theorem perform_shown (c : IpmiClient) (address username : String) (action : ChassisAction)
    (hpq : Passable p ↔ Passable q) (h : t.shown = u.shown) :
    (c.perform address username p action t).1 = (c.perform address username q action u).1 ∧
      (c.perform address username p action t).2.shown = (c.perform address username q action u).2.shown := by
  have hshown : (c.invocation address username p action).shown =
      (c.invocation address username q action).shown := rfl
  obtain ⟨hending, hafter⟩ :=
    Toolbox.run_shown hshown (c.holdsNul_invocation address username action hpq) h
  simp only [perform, hending, true_and]
  exact hafter

end IpmiClient

/-! ## Real machines -/

/-- Commands that are the same but for their passwords. -/
theorem PowerCommand.cases_of_redacted {c c' : PowerCommand} (h : c.redacted = c'.redacted) :
    c = c' ∨
    (∃ address username p q, c = .bmcOn address username p ∧ c' = .bmcOn address username q) ∨
    ∃ address username p q, c = .bmcOff address username p ∧ c' = .bmcOff address username q := by
  cases c <;> cases c' <;> simp only [redacted] at h <;> cases h
  · exact .inl rfl
  · exact .inl rfl
  · exact .inr (.inl ⟨_, _, _, _, rfl, rfl⟩)
  · exact .inr (.inr ⟨_, _, _, _, rfl, rfl⟩)

/-- The password in the command can be passed to a tool, if there is one. -/
def PowerCommand.Passable : PowerCommand → Prop
  | .bmcOn _ _ password | .bmcOff _ _ password => MetalPool.Passable password
  | _ => True

namespace Rig

variable {r s : Rig} {c c' : PowerCommand}

/-- The rig without the values that were added to the environments of tools. -/
def shown (r : Rig) : Rig := { r with tools := r.tools.shown }

/-- The rigs show the same: they differ in what was added to the environments of tools at most. -/
def ShowsAs (r s : Rig) : Prop := r.shown = s.shown

theorem tools_of_shown (h : r.shown = s.shown) : r.tools.shown = s.tools.shown :=
  (congrArg Rig.tools h :)

/-- Rigs that show the same differ in their tools at most. -/
theorem eq_of_shown (h : r.shown = s.shown) : s = { r with tools := s.tools } := by
  obtain ⟨waker, ssh, sshDeadline, hdeadline, ipmi, resolve, tools, sent⟩ := r
  cases s
  simp only [shown, mk.injEq] at h ⊢
  obtain ⟨rfl, rfl, rfl, rfl, rfl, -, rfl⟩ := h
  simp

/-- What tools answer alike, and note so that it shows the same, a rig does too. -/
theorem withTools_shown {α : Type} {x y : α × Toolbox} (h : r.shown = s.shown)
    (hxy : x.1 = y.1 ∧ x.2.shown = y.2.shown) :
    (r.withTools x).1 = (s.withTools y).1 ∧ (r.withTools x).2.shown = (s.withTools y).2.shown := by
  refine ⟨hxy.1, ?_⟩
  rw [eq_of_shown h]
  simp only [shown, withTools, hxy.2]

theorem wake_shown (h : r.shown = s.shown) (mac : String) (port : UInt16) (broadcastAddress : Option String) :
    (r.wake mac port broadcastAddress).1 = (s.wake mac port broadcastAddress).1 ∧
      (r.wake mac port broadcastAddress).2.shown = (s.wake mac port broadcastAddress).2.shown := by
  have htools := tools_of_shown h
  rw [eq_of_shown h]
  exact ⟨rfl, by simp only [wake, shown, htools]⟩

/-- Both powers of a management controller are switched alike, whichever of two passwords is handed over that
can both be passed to a tool or both not. -/
theorem switch_shown (h : r.shown = s.shown) (address username : String) {p q : String}
    (hpq : Passable p ↔ Passable q) (action : ChassisAction) :
    let x := r.ipmi.perform address username p action r.tools
    let y := s.ipmi.perform address username q action s.tools
    (r.withTools (x.1.map fun _ => (), x.2)).1 = (s.withTools (y.1.map fun _ => (), y.2)).1 ∧
      (r.withTools (x.1.map fun _ => (), x.2)).2.shown = (s.withTools (y.1.map fun _ => (), y.2)).2.shown := by
  intro x y
  have hipmi : r.ipmi = s.ipmi := (congrArg Rig.ipmi h :)
  obtain ⟨hresult, hshown⟩ : x.1 = y.1 ∧ x.2.shown = y.2.shown := by
    simp only [x, y, ← hipmi]
    exact r.ipmi.perform_shown address username action hpq (tools_of_shown h)
  exact withTools_shown h ⟨congrArg (Except.map fun _ => ()) hresult, hshown⟩

theorem conceals : Backends.Conceals ShowsAs
    fun c c' => c.redacted = c'.redacted ∧ (c.Passable ↔ c'.Passable) where
  redacted_eq hc := hc.1
  probe h address := withTools_shown h (PingProbe.search_shown _ address _ (tools_of_shown h))
  execute {r s c c'} h hc := by
    obtain ⟨hredacted, hpassable⟩ := hc
    -- Either the commands are the same, or both go to one management controller with two passwords.
    rcases PowerCommand.cases_of_redacted hredacted with
      rfl | ⟨address, username, p, q, rfl, rfl⟩ | ⟨address, username, p, q, rfl, rfl⟩
    · cases c with
      | wake mac port broadcastAddress => exact wake_shown h mac port broadcastAddress
      | shutdown host user =>
        have hssh : s.ssh = r.ssh := (congrArg Rig.ssh h.symm :)
        have hdeadline : s.sshDeadline = r.sshDeadline := (congrArg Rig.sshDeadline h.symm :)
        refine withTools_shown h ?_
        rw [hssh, hdeadline]
        exact SshShutdown.shutdownBy_shown _ _ host user (tools_of_shown h)
      | bmcOn address username password => exact switch_shown h address username .rfl .on
      | bmcOff address username password => exact switch_shown h address username .rfl .off
    · exact switch_shown h address username hpassable .on
    · exact switch_shown h address username hpassable .off

end Rig

end MetalPool
