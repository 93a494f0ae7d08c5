import MetalPool.Proofs.Pool.Growth
import MetalPool.Proofs.Pool.Queries
/-!
# Resizing the pool

A call that grows or shrinks the pool lists the records and sets the desired
state of the first that are not as they should be, each at the version it was
just listed with. Nobody writes in between, so a write can only meet a pending
conflict (`run_setAll_cons`): either all of the records are turned, or those
before the first that a conflict is pending for. `Store.Stands` is what the loop
keeps for the records it has not come to yet.
-/

namespace MetalPool

variable {s : Store} {server : Server} {servers rest : List Server} {target : PowerState}

theorem Pool.isRunning_iff (server : Server) : isRunning server ↔ server.spec.desired = .on := by
  unfold isRunning ServerSpec.desired
  cases server.spec.powerState with
  | none => decide
  | some state => cases state <;> decide

namespace Store

/-! ## Records turned one after the other -/

/-- Each of the records is there as it was listed, and none is listed twice. -/
structure Stands (s : Store) (servers : List Server) : Prop where
  get_eq : ∀ server ∈ servers, s.get server.name = some server
  nodup : (servers.map Server.name).Nodup

theorem Stands.sublist (h : s.Stands servers) (hsub : rest.Sublist servers) : s.Stands rest :=
  ⟨fun server hm => h.get_eq server (hsub.subset hm), h.nodup.sublist (hsub.map _)⟩

theorem Stands.head (h : s.Stands (server :: rest)) : s.get server.name = some server :=
  h.get_eq server List.mem_cons_self

/-- A write to the first record leaves the others as they were. -/
theorem Stands.commit (h : s.Stands (server :: rest)) (changed : Server) :
    (s.commit server.name changed).Stands rest := by
  obtain ⟨hfresh, hnodup⟩ := List.nodup_cons.1 h.nodup
  refine ⟨fun t hm => ?_, hnodup⟩
  have hne : t.name ≠ server.name := fun he => hfresh (he ▸ List.mem_map_of_mem hm)
  rw [get_commit, if_neg hne]
  exact h.get_eq t (List.mem_cons_of_mem _ hm)

theorem Numbered.stands (h : s.Numbered) : s.Stands s.list := by
  refine ⟨fun server hm => ?_, ?_⟩
  · have hread : s.Reads server.name server .list := ⟨rfl, s.list, rfl, hm⟩
    exact hread.get_eq h
  · exact h.list_sorted.imp fun hlt => String.ne_of_lt hlt

theorem Numbered.mem_list (h : s.Numbered) : server ∈ s.list ↔ s.get server.name = some server := by
  constructor
  · intro hm
    exact h.stands.get_eq server hm
  · intro hg
    obtain ⟨before, after, he, -⟩ := List.lookup_eq_some_iff.1 hg
    exact List.mem_map.2 ⟨(server.name, server), he ▸ by simp, rfl⟩

/-- A write that keeps the record's name gives it a version of its own. -/
theorem Numbered.commit (h : s.Numbered) (server : Server) : (s.commit server.name server).Numbered := by
  intro name found hg
  rw [get_commit] at hg
  split at hg
  · rename_i hn
    cases hg
    have hnum : versionNumber (server.withVersion s.nextVersion).version? = s.lastVersion + 1 :=
      versionNumber_repr _
    rw [hnum]
    exact ⟨hn.symm, Nat.succ_pos _, Nat.le_refl _⟩
  · obtain ⟨hname, hpos, hnum⟩ := h name found hg
    exact ⟨hname, hpos, Nat.le_succ_of_le hnum⟩

/-- The store after writes had each of the machines turned to `target`. -/
def turned (s : Store) (target : PowerState) (servers : List Server) : Store :=
  servers.foldl (fun s server => s.commit server.name (server.withPowerState target)) s

theorem turned_cons (s : Store) (target : PowerState) (server : Server) (rest : List Server) :
    s.turned target (server :: rest) =
      (s.commit server.name (server.withPowerState target)).turned target rest := rfl

theorem Numbered.turned (h : s.Numbered) (target : PowerState) (servers : List Server) :
    (s.turned target servers).Numbered := by
  induction servers generalizing s with
  | nil => exact h
  | cons server rest ih => exact ih (h.commit (server.withPowerState target))

theorem writes_turned (s : Store) (target : PowerState) (servers : List Server) :
    (s.turned target servers).writes = s.writes + servers.length := by
  induction servers generalizing s with
  | nil => rfl
  | cons server rest ih =>
    rw [turned_cons, ih, List.length_cons, Nat.add_comm rest.length, ← Nat.add_assoc]
    rfl

theorem get_turned_of_not_mem {name : String} (h : name ∉ servers.map Server.name) :
    (s.turned target servers).get name = s.get name := by
  induction servers generalizing s with
  | nil => rfl
  | cons server rest ih =>
    have hne : name ≠ server.name := fun he => h (he ▸ List.mem_cons_self)
    have hrest : name ∉ rest.map Server.name := fun hm => h (List.mem_cons_of_mem _ hm)
    rw [turned_cons, ih hrest, get_commit, if_neg hne]

theorem get_turned_of_mem (hn : (servers.map Server.name).Nodup) (hm : server ∈ servers) :
    ∃ version, (s.turned target servers).get server.name =
      some ((server.withPowerState target).withVersion version) := by
  induction servers generalizing s with
  | nil => cases hm
  | cons first rest ih =>
    obtain ⟨hfresh, hnodup⟩ := List.nodup_cons.1 hn
    rcases List.mem_cons.1 hm with rfl | hm
    · refine ⟨s.nextVersion, ?_⟩
      rw [turned_cons, get_turned_of_not_mem hfresh, get_commit, if_pos rfl]
    · exact ih hnodup hm

/-- Machines that should be off are turned on: all of them count. -/
theorem countP_turned_on (h : s.Stands servers) (hoff : ∀ t ∈ servers, t.spec.desired = .off) :
    (s.turned .on servers).list.countP Pool.isRunning =
      s.list.countP Pool.isRunning + servers.length := by
  induction servers generalizing s with
  | nil => rfl
  | cons server rest ih =>
    obtain ⟨hfirst, hrest⟩ := List.forall_mem_cons.1 hoff
    have hcount := SortedMap.countP_insert s.records
      ((server.withPowerState .on).withVersion s.nextVersion) Pool.isRunning h.head
    rw [Pool.not_running_of_off hfirst] at hcount
    rw [turned_cons, ih (h.commit _) hrest, List.length_cons, Nat.add_comm rest.length, ← Nat.add_assoc]
    exact congrArg (· + rest.length) hcount

/-- Machines that should be on are turned off: none of them counts any more. -/
theorem countP_turned_off (h : s.Stands servers) (hon : ∀ t ∈ servers, t.spec.desired = .on) :
    (s.turned .off servers).list.countP Pool.isRunning + servers.length =
      s.list.countP Pool.isRunning := by
  induction servers generalizing s with
  | nil => rfl
  | cons server rest ih =>
    obtain ⟨hfirst, hrest⟩ := List.forall_mem_cons.1 hon
    have hcount := SortedMap.countP_insert s.records
      ((server.withPowerState .off).withVersion s.nextVersion) Pool.isRunning h.head
    rw [(Pool.isRunning_iff server).2 hfirst] at hcount
    rw [turned_cons, List.length_cons, ← Nat.add_assoc, ih (h.commit _) hrest]
    exact hcount

end Store

namespace Pool

open Store

/-! ## The loop -/

theorem run_setAll_cons (hg : s.get server.name = some server) (target : PowerState)
    (rest : List Server) :
    (setAll target (server :: rest)).run.run s =
      if server.name ∈ s.conflicts then
        (.error (.store (.conflict server.name)), s.spend server.name)
      else
        let later := (setAll target rest).run.run (s.commit server.name (server.withPowerState target))
        (later.1.map (· + 1), later.2) := by
  have hask : (ask (.updatePowerState server.name server.version? target)).run.run s =
      ((s.updatePowerState server.name server.version? target).1.mapError .store,
        (s.updatePowerState server.name server.version? target).2) := run_ask ..
  rw [updatePowerState_of_get hg] at hask
  by_cases hc : server.name ∈ s.conflicts
  · rw [if_pos hc] at hask ⊢
    exact run_seq_of_error hask
  · rw [if_neg hc] at hask ⊢
    refine (run_seq_of_ok hask).trans ((run_seq ..).trans ?_)
    obtain ⟨result, after⟩ :=
      (setAll target rest).run.run (s.commit server.name (server.withPowerState target))
    cases result <;> rfl

theorem run_setAll (h : s.Stands servers) (target : PowerState)
    (hc : ∀ server ∈ servers, server.name ∉ s.conflicts) :
    (setAll target servers).run.run s = (.ok servers.length, s.turned target servers) := by
  induction servers generalizing s with
  | nil => rfl
  | cons server rest ih =>
    obtain ⟨hfirst, hrest⟩ := List.forall_mem_cons.1 hc
    rw [run_setAll_cons h.head, if_neg hfirst, ih (h.commit _) hrest]
    rfl

/-- The first record that a conflict is pending for ends the loop. -/
theorem run_setAll_of_conflict {done : List Server} (h : s.Stands (done ++ server :: rest))
    (target : PowerState) (hdone : ∀ t ∈ done, t.name ∉ s.conflicts)
    (hc : server.name ∈ s.conflicts) :
    (setAll target (done ++ server :: rest)).run.run s =
      (.error (.store (.conflict server.name)), (s.turned target done).spend server.name) := by
  induction done generalizing s with
  | nil =>
    rw [List.nil_append, run_setAll_cons h.head, if_pos hc]
    rfl
  | cons first done ih =>
    obtain ⟨hfirst, hlater⟩ := List.forall_mem_cons.1 hdone
    rw [List.cons_append, run_setAll_cons h.head, if_neg hfirst, ih (h.commit _) hlater hc]
    rfl

/-! ## One call -/

/-- The records `servers` were turned to `target`, one write for each, and nothing else was changed; the
target size of the pool went up or down by as many. -/
structure Turns (s after : Store) (servers : List Server) (target : PowerState) : Prop where
  writes_eq : after.writes = s.writes + servers.length
  turned : ∀ server ∈ servers, ∃ version,
    after.get server.name = some ((server.withPowerState target).withVersion version)
  others : ∀ name ∉ servers.map Server.name, after.get name = s.get name
  size_eq : ∃ n m, ((targetSize groupId).run.run s).1 = .ok n ∧
    ((targetSize groupId).run.run after).1 = .ok m ∧
    (target = .on → m = n + servers.length) ∧ (target = .off → n = m + servers.length)

/-- A call ends with `result` and leaves `after`, when it has `servers` to turn to `target` and `done` to
say if nothing comes in between. -/
structure Resizes (s : Store) (servers : List Server) (target : PowerState)
    (done result : Except PoolError Unit) (after : Store) : Prop where
  all : (∀ server ∈ servers, server.name ∉ s.conflicts) →
    result = done ∧ Turns s after servers target
  stops : ∀ earlier server later, servers = earlier ++ server :: later →
    (∀ t ∈ earlier, t.name ∉ s.conflicts) → server.name ∈ s.conflicts →
    result = .error (.store (.conflict server.name)) ∧ Turns s after earlier target

theorem turns_turned {source : PowerState} (h : s.Stands servers) (hne : source ≠ target)
    (hs : ∀ t ∈ servers, t.spec.desired = source) : Turns s (s.turned target servers) servers target := by
  refine ⟨writes_turned .., fun _ => get_turned_of_mem h.nodup, fun _ => get_turned_of_not_mem,
    _, _, targetSize_run _, targetSize_run _, ?_, ?_⟩
  · rintro rfl
    refine countP_turned_on h fun t hm => ?_
    cases source with
    | on => exact absurd rfl hne
    | off => exact hs t hm
  · rintro rfl
    refine (countP_turned_off h fun t hm => ?_).symm
    cases source with
    | on => exact hs t hm
    | off => exact absurd rfl hne

/-- A pending conflict is no record. -/
theorem Turns.spend {after : Store} (h : Turns s after servers target) (name : String) :
    Turns s (after.spend name) servers target :=
  ⟨h.writes_eq, h.turned, h.others, h.size_eq⟩

/-- Of what a call does after listing the records, only the writes touch the store. -/
theorem resizes_flip {source : PowerState} {n : Nat} {next : Nat → PoolSession Unit}
    {done : Except PoolError Unit} (h : s.Numbered) (hne : source ≠ target)
    (hnext : ∀ after, (next (candidates source n s.list).length).run.run after = (done, after)) :
    Resizes s (candidates source n s.list) target done
      ((flip n source target >>= next).run.run s).1 ((flip n source target >>= next).run.run s).2 := by
  have hstands : s.Stands (candidates source n s.list) :=
    h.stands.sublist ((List.take_sublist ..).trans List.filter_sublist)
  have hsource : ∀ t ∈ candidates source n s.list, t.spec.desired = source := fun t hm =>
    of_decide_eq_true (List.mem_filter.1 (List.mem_of_mem_take hm)).2
  have hflip : (flip n source target).run.run s =
      (setAll target (candidates source n s.list)).run.run s := run_seq_of_ok (run_ask .list s)
  generalize candidates source n s.list = servers at *
  constructor
  · intro hfree
    have hrun : (flip n source target >>= next).run.run s = _ :=
      run_seq_of_ok (hflip.trans (run_setAll hstands target hfree))
    rw [hrun, hnext]
    exact ⟨rfl, turns_turned hstands hne hsource⟩
  · rintro earlier server later rfl hfree hconflict
    have hrun : (flip n source target >>= next).run.run s = _ :=
      run_seq_of_error (hflip.trans (run_setAll_of_conflict hstands target hfree hconflict))
    have hearlier := turns_turned (hstands.sublist (List.sublist_append_left ..)) hne fun t hm =>
      hsource t (List.mem_append_left _ hm)
    rw [hrun]
    exact ⟨rfl, hearlier.spend server.name⟩

/-- A call that is to turn no machine leaves the store as it is. -/
theorem resizes_none (h : s.Numbered) (target : PowerState) (done : Except PoolError Unit) :
    Resizes s [] target done done s := by
  have hstands : s.Stands [] := h.stands.sublist (List.nil_sublist _)
  constructor
  · intro _
    obtain ⟨source, hne⟩ : ∃ source, source ≠ target := by
      cases target with
      | on => exact ⟨.off, by decide⟩
      | off => exact ⟨.on, by decide⟩
    have hturns : Turns s (s.turned target []) [] target := turns_turned hstands hne (by simp)
    exact ⟨rfl, hturns⟩
  · intro earlier server later he
    cases earlier <;> cases he

theorem take_count (source : PowerState) (delta : Int32) (servers : List Server) :
    let due := servers.filter (·.spec.desired = source)
    due.take (min (max delta.toInt 0).toNat due.length) =
      candidates source delta.toInt.toNat servers := by
  intro due
  unfold candidates
  rw [List.take_eq_take_iff]
  omega

theorem resizes_increaseSize (h : s.Numbered) (delta : Int32) :
    let off := s.list.filter (·.spec.desired = .off)
    Resizes s (off.take (min (max delta.toInt 0).toNat off.length)) .on
      (if off.length < delta.toInt then .error (.insufficientCapacity delta.toInt.toNat off.length)
        else .ok ())
      ((increaseSize groupId delta).run.run s).1 ((increaseSize groupId delta).run.run s).2 := by
  intro off
  have hcheck : (increaseSize groupId delta).run.run s = _ := run_seq_of_ok (run_checkGroup groupId s)
  rw [hcheck, take_count]
  have hlength : (candidates .off delta.toInt.toNat s.list).length =
      min delta.toInt.toNat off.length := List.length_take
  by_cases hd : delta ≤ 0
  · have hle := toInt_nonpos hd
    rw [if_pos hd, if_neg (by omega), candidates_nonpos .off hd]
    exact resizes_none h .on (.ok ())
  · rw [if_neg hd]
    refine resizes_flip h (by decide) fun after => ?_
    rw [hlength]
    by_cases hfew : off.length < delta.toInt
    · rw [if_pos (by omega), if_pos hfew, Nat.min_eq_right (by omega)]
      rfl
    · rw [if_neg (by omega), if_neg hfew]
      rfl

theorem resizes_decreaseTargetSize (h : s.Numbered) (delta : Int32) :
    let on := s.list.filter (·.spec.desired = .on)
    Resizes s (on.take (min (max delta.toInt 0).toNat on.length)) .off (.ok ())
      ((decreaseTargetSize groupId delta).run.run s).1
      ((decreaseTargetSize groupId delta).run.run s).2 := by
  intro on
  have hcheck : (decreaseTargetSize groupId delta).run.run s = _ :=
    run_seq_of_ok (run_checkGroup groupId s)
  rw [hcheck, take_count]
  by_cases hd : delta ≤ 0
  · rw [if_pos hd, candidates_nonpos .on hd]
    exact resizes_none h .off (.ok ())
  · rw [if_neg hd]
    exact resizes_flip h (by decide) fun after => rfl

/-! ## Main theorem -/

/-- Any call to resize the pool, after any history of the records. A growing pool turns on the first of the
machines that should be off, in the order of their names, a shrinking one turns off the first of those that
should be on: as many as the delta says, or all there are, or those before the first with a conflict
pending. Only a growing pool has too few of them refused. -/
theorem resize_exact (before : List StoreEvent) (delta : Int32) :
    let s := Store.after {} before
    let off := s.list.filter (·.spec.desired = .off)
    let on := s.list.filter (·.spec.desired = .on)
    let count (servers : List Server) := min (max delta.toInt 0).toNat servers.length
    let grown := (increaseSize groupId delta).run.run s
    let shrunk := (decreaseTargetSize groupId delta).run.run s
    (s.list.map fun server => Bytes.ofText server.name).Pairwise (· < ·) ∧
    Resizes s (off.take (count off)) .on
      (if off.length < delta.toInt then .error (.insufficientCapacity delta.toInt.toNat off.length)
        else .ok ()) grown.1 grown.2 ∧
    Resizes s (on.take (count on)) .off (.ok ()) shrunk.1 shrunk.2 := by
  intro s off on count grown shrunk
  have hnumbered : s.Numbered := numbered_empty.after before
  have hsorted := List.pairwise_map.1 hnumbered.list_sorted
  exact ⟨List.pairwise_map.2 (hsorted.imp Bytes.ofText_lt_ofText_iff.2),
    resizes_increaseSize hnumbered delta, resizes_decreaseTargetSize hnumbered delta⟩

/-- Five machines are asked for where two should be off: both are turned on, and the call says that there
are no more. With a conflict pending for the second, only the first is. -/
theorem resize_exact_short :
    let machine (name : String) (state : Option PowerState) : Server :=
      { metadata := { name := some name }, spec := { powerState := state } }
    let inserts : List StoreEvent :=
      [.insert (machine "m3" none), .insert (machine "m2" (some .on)), .insert (machine "m1" none)]
    let free := Store.after {} inserts
    let contested := Store.after {} (inserts ++ [.conflictNext "m3"])
    let first := (machine "m1" none).withVersion "3"
    let second := (machine "m3" none).withVersion "1"
    let grown := (increaseSize groupId 5).run.run free
    let stopped := (increaseSize groupId 5).run.run contested
    (grown.1 = .error (.insufficientCapacity 5 2) ∧ Turns free grown.2 [first, second] .on) ∧
      stopped.1 = .error (.store (.conflict "m3")) ∧ Turns contested stopped.2 [first] .on := by
  intro machine inserts free contested first second grown stopped
  have hoff : free.list.filter (·.spec.desired = .off) = [first, second] := by decide +kernel
  have hgrown := (resize_exact inserts 5).2.1.all (by decide +kernel)
  rw [hoff] at hgrown
  have hstopped := (resize_exact (inserts ++ [.conflictNext "m3"]) 5).2.1.stops [first] second []
    (by decide +kernel) (by decide +kernel) (by decide +kernel)
  exact ⟨hgrown, hstopped⟩

end Pool

end MetalPool
