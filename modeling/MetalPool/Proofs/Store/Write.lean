import MetalPool.Store.Memory
/-!
# What a write leaves behind

`write_of` sums up `Store.write`: a write spends a pending conflict, uses up a
version for nothing, or puts the changed record in at the next version. The
other lemmas say what each of the three does to a look-up.

A write at the version just read can only meet a pending conflict
(`write_of_get`).
-/

namespace MetalPool.Store

deriving instance DecidableEq for Except

/-- The store after a pending conflict of `name` refused a write. -/
def spend (s : Store) (name : String) : Store := { s with conflicts := s.conflicts.erase name }

/-- The store after a version was used up for a write that failed. -/
def skip (s : Store) : Store := { s with lastVersion := s.lastVersion + 1 }

/-- The version that the next insert or write takes. -/
def nextVersion (s : Store) : String := (s.lastVersion + 1).repr

/-- The store after a write left `changed` under `name`. -/
def commit (s : Store) (name : String) (changed : Server) : Store :=
  { s with
    records := s.records.insert name (changed.withVersion s.nextVersion)
    lastVersion := s.lastVersion + 1
    writes := s.writes + 1 }

/-- What a write does, in four cases. -/
theorem write_of (s : Store) (name : String) (expected : Option String) (change : Server → Server) :
    -- A pending conflict is spent.
    (name ∈ s.conflicts ∧
      s.write name expected change = (.error (.conflict name), s.spend name)) ∨
    -- No record has the name.
    (name ∉ s.conflicts ∧ s.get name = none ∧
      s.write name expected change = (.error (.notFound name), s.skip)) ∨
    -- The record is at another version than the one expected.
    (name ∉ s.conflicts ∧ ∃ server, s.get name = some server ∧ expected.isSome ∧
      server.version? ≠ expected ∧
      s.write name expected change = (.error (.conflict name), s.skip)) ∨
    -- The record is changed.
    (name ∉ s.conflicts ∧ ∃ server, s.get name = some server ∧
      (expected.isSome → server.version? = expected) ∧
      s.write name expected change = (.ok (), s.commit name (change server))) := by
  unfold write
  by_cases hc : name ∈ s.conflicts
  · left
    rw [if_pos hc]
    exact ⟨hc, rfl⟩
  · right
    rw [if_neg hc]
    cases hg : s.get name with
    | none =>
      left
      refine ⟨hc, rfl, ?_⟩
      simp only [show s.records.get? name = none from hg]
      rfl
    | some server =>
      right
      simp only [show s.records.get? name = some server from hg]
      by_cases hv : expected.isSome ∧ server.version? ≠ expected
      · left
        rw [if_pos hv]
        exact ⟨hc, server, rfl, hv.1, hv.2, rfl⟩
      · right
        rw [if_neg hv]
        refine ⟨hc, server, rfl, ?_, rfl⟩
        intro he
        exact Decidable.not_not.1 fun hne => hv ⟨he, hne⟩

/-- A write that goes through found the record at the version expected. -/
theorem write_ok {s : Store} {name : String} {expected : Option String} {change : Server → Server}
    (h : (s.write name expected change).1.isOk) :
    ∃ server, s.get name = some server ∧ (expected.isSome → server.version? = expected) ∧
      (s.write name expected change).2 = s.commit name (change server) := by
  rcases write_of s name expected change with
    ⟨-, hw⟩ | ⟨-, -, hw⟩ | ⟨-, _, -, -, -, hw⟩ | ⟨-, server, hg, hv, hw⟩ <;> rw [hw] at h ⊢
  · cases h
  · cases h
  · cases h
  · exact ⟨server, hg, hv, rfl⟩

/-! ## Look-ups -/

@[simp] theorem get_spend (s : Store) (name n : String) : (s.spend name).get n = s.get n := rfl

@[simp] theorem get_skip (s : Store) (n : String) : s.skip.get n = s.get n := rfl

@[simp] theorem get_conflictNext (s : Store) (name n : String) :
    (s.conflictNext name).get n = s.get n := rfl

@[simp] theorem get_commit (s : Store) (name : String) (changed : Server) (n : String) :
    (s.commit name changed).get n =
      if n = name then some (changed.withVersion s.nextVersion) else s.get n :=
  SortedMap.get?_insert ..

@[simp] theorem get_insert (s : Store) (server : Server) (n : String) :
    (s.insert server).get n =
      if n = server.name then some (server.withVersion s.nextVersion) else s.get n :=
  SortedMap.get?_insert ..

theorem spend_ne_commit (s : Store) (n name : String) (changed : Server) :
    s.spend n ≠ s.commit name changed := by
  intro h
  exact absurd (congrArg Store.writes h) (Nat.ne_of_lt (Nat.lt_succ_self _))

/-- What a write to a record that fails or goes through shows of every record. -/
theorem get_write (s : Store) (name : String) (expected : Option String) (change : Server → Server) :
    (∀ n, (s.write name expected change).2.get n = s.get n) ∨
    ∃ server, s.get name = some server ∧ ∀ n, (s.write name expected change).2.get n =
      if n = name then some ((change server).withVersion s.nextVersion) else s.get n := by
  rcases write_of s name expected change with
    ⟨-, hw⟩ | ⟨-, -, hw⟩ | ⟨-, _, -, -, -, hw⟩ | ⟨-, server, hg, -, hw⟩ <;> rw [hw]
  · exact .inl fun n => get_spend ..
  · exact .inl fun n => get_skip ..
  · exact .inl fun n => get_skip ..
  · exact .inr ⟨server, hg, fun n => get_commit ..⟩

/-- A write at the version just read: a pending conflict refuses it, or it is stored. -/
theorem write_of_get {s : Store} {name : String} {server : Server} (hg : s.get name = some server)
    (change : Server → Server) :
    s.write name server.version? change =
      if name ∈ s.conflicts then (.error (.conflict name), s.spend name)
      else (.ok (), s.commit name (change server)) := by
  rcases write_of s name server.version? change with
    ⟨hc, hw⟩ | ⟨-, hn, -⟩ | ⟨-, other, ho, -, hne, -⟩ | ⟨hc, other, ho, -, hw⟩
  · rw [hw, if_pos hc]
  · rw [hg] at hn; cases hn
  · rw [hg] at ho; cases ho; exact absurd rfl hne
  · rw [hg] at ho; cases ho
    rw [hw, if_neg hc]

theorem updateStatus_of_get {s : Store} {name : String} {server : Server}
    (hg : s.get name = some server) (status : ServerStatus) :
    s.updateStatus name server.version? status =
      if name ∈ s.conflicts then (.error (.conflict name), s.spend name)
      else (.ok (), s.commit name (server.withStatus status)) :=
  write_of_get hg (·.withStatus status)

theorem updatePowerState_of_get {s : Store} {name : String} {server : Server}
    (hg : s.get name = some server) (state : PowerState) :
    s.updatePowerState name server.version? state =
      if name ∈ s.conflicts then (.error (.conflict name), s.spend name)
      else (.ok (), s.commit name (server.withPowerState state)) :=
  write_of_get hg (·.withPowerState state)

end MetalPool.Store
