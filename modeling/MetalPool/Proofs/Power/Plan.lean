import MetalPool.Power.Command
/-!
# Plans

`Plans` says without the planner which command takes a machine to a state: the
one of the control block that the record's control type names, if that block is
complete. `plan_eq_ok` ties the two together.
-/

namespace MetalPool.ServerSpec

/-- The command takes the machine of the record to the state. -/
inductive Plans (spec : ServerSpec) : PowerState → PowerCommand → Prop where
  | wake {wol : WolControl} (ht : spec.controlType = some .wol) (hw : spec.control.wol = some wol)
    (hm : wol.macAddress ≠ "") :
    Plans spec .on (.wake wol.macAddress wol.port wol.broadcastAddress)
  | shutdown {wol : WolControl} (ht : spec.controlType = some .wol)
    (hw : spec.control.wol = some wol) (ha : wol.address ≠ "") :
    Plans spec .off (.shutdown wol.address (wol.user.filter (· ≠ "")))
  | bmcOn {ipmi : IpmiControl} (ht : spec.controlType = some .ipmi)
    (hi : spec.control.ipmi = some ipmi) (ha : ipmi.address ≠ "") (hu : ipmi.username ≠ "")
    (hp : ipmi.password ≠ "") :
    Plans spec .on (.bmcOn ipmi.address ipmi.username ipmi.password)
  | bmcOff {ipmi : IpmiControl} (ht : spec.controlType = some .ipmi)
    (hi : spec.control.ipmi = some ipmi) (ha : ipmi.address ≠ "") (hu : ipmi.username ≠ "")
    (hp : ipmi.password ≠ "") :
    Plans spec .off (.bmcOff ipmi.address ipmi.username ipmi.password)

variable {spec : ServerSpec} {d : PowerState} {command : PowerCommand}

theorem plans_of_plan (h : spec.plan d = .ok command) : spec.Plans d command := by
  unfold plan at h
  split at h
  · cases h
  · rename_i ht
    split at h
    · cases h
    · rename_i wol hw
      cases d <;> simp only [WolControl.plan] at h <;> split at h <;> cases h
      · exact .wake ht hw ‹_›
      · exact .shutdown ht hw ‹_›
  · rename_i ht
    split at h
    · cases h
    · rename_i ipmi hi
      unfold IpmiControl.plan at h
      split at h
      · cases h
      · split at h
        · cases h
        · rename_i ha hup
          rw [not_or] at hup
          cases d <;> cases h
          · exact .bmcOn ht hi ha hup.1 hup.2
          · exact .bmcOff ht hi ha hup.1 hup.2

theorem plan_of_plans (h : spec.Plans d command) : spec.plan d = .ok command := by
  unfold plan
  cases h with
  | wake ht hw hm => simp [ht, hw, WolControl.plan, hm]
  | shutdown ht hw ha => simp [ht, hw, WolControl.plan, ha]
  | bmcOn ht hi ha hu hp => simp [ht, hi, IpmiControl.plan, ha, hu, hp]
  | bmcOff ht hi ha hu hp => simp [ht, hi, IpmiControl.plan, ha, hu, hp]

theorem plan_eq_ok : spec.plan d = .ok command ↔ spec.Plans d command :=
  ⟨plans_of_plan, plan_of_plans⟩

/-- A plan takes the machine to where it is asked to. -/
theorem Plans.target (h : spec.Plans d command) : command.target = d := by
  cases h <;> rfl

end MetalPool.ServerSpec
