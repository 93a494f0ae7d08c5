import MetalPool.Proofs.Pool.Runs
/-!
# Refused calls

A call on the pool can be refused for what it asks: it names a group or a node
that does not exist, or leaves its node out (`PoolError.BlamesCall`). Most calls
find this out before their first write. Only giving back nodes looks at them one
by one, and what stands before an unknown node is turned off by then
(`turnOff_stops`).

So such a refusal leaves the store as it was, unless the first of the nodes to
be given back was known (`refusal_spares_store_iff`).
-/

namespace MetalPool

/-- The refusal is for what the call asks, and not for what the pool has or the store says. -/
def PoolError.BlamesCall : PoolError → Prop
  | .unknownNodeGroup _ | .unknownNode _ | .invalidArgument _ => True
  | _ => False

namespace Pool

variable {α β : Type} {session : PoolSession α} {next : α → PoolSession β} {s after : Store}
  {e : PoolError}

/-! ## Sessions that never blame the call -/

/-- Held with any records, the session ends well or in a refusal that does not blame the call. -/
def Blameless (session : PoolSession α) : Prop :=
  ∀ s e after, session.run.run s = (.error e, after) → ¬ e.BlamesCall

theorem blameless_return (a : α) : Blameless (pure a : PoolSession α) := by
  intro s e after h
  cases h

theorem blameless_throw (he : ¬ e.BlamesCall) : Blameless (throw e : PoolSession α) := by
  intro s e' after h
  cases h
  exact he

theorem blameless_seq (h : Blameless session) (hn : ∀ a, Blameless (next a)) :
    Blameless (session >>= next) := by
  intro s e after hrun
  rcases error_of_seq hrun with hfirst | ⟨a, mid, -, hnext⟩
  · exact h s e after hfirst
  · exact hn a mid e after hnext

theorem blameless_ask (r : StoreRequest) : Blameless (ask r) := by
  intro s e after h
  rw [run_ask] at h
  cases hanswer : (Store.serve r s).1 with
  | ok answer =>
    rw [hanswer] at h
    cases h
  | error refusal =>
    rw [hanswer] at h
    cases h
    exact id

theorem blameless_setAll (state : PowerState) (servers : List Server) :
    Blameless (setAll state servers) := by
  induction servers with
  | nil => exact blameless_return _
  | cons s rest ih =>
    exact blameless_seq (blameless_ask _) fun _ => blameless_seq ih fun _ => blameless_return _

theorem blameless_flip (n : Nat) (source target : PowerState) : Blameless (flip n source target) :=
  blameless_seq (blameless_ask .list) fun _ => blameless_setAll _ _

/-! ## Sessions that blame the call before they write -/

/-- The session leaves the records as they are where it ends in a refusal that blames the call. -/
def Forewarns (s : Store) (session : PoolSession α) : Prop :=
  ∀ e after, session.run.run s = (.error e, after) → e.BlamesCall → after = s

theorem Blameless.forewarns (h : Blameless session) : Forewarns s session :=
  fun e after hrun he => absurd he (h s e after hrun)

theorem forewarns_throw (e : PoolError) : Forewarns s (throw e : PoolSession α) := by
  intro e' after h he
  cases h
  rfl

theorem forewarns_seq (h : Forewarns s session) (hn : ∀ a, Blameless (next a)) :
    Forewarns s (session >>= next) := by
  intro e after hrun he
  rcases error_of_seq hrun with hfirst | ⟨a, mid, -, hnext⟩
  · exact h e after hfirst he
  · exact absurd he (hn a mid e after hnext)

theorem forewarns_checkGroup (id : String) (s : Store) : Forewarns s (checkGroup id) := by
  intro e after h he
  rw [run_checkGroup] at h
  exact (congrArg Prod.snd h).symm

theorem forewarns_groupFor (node : Option Node) (s : Store) : Forewarns s (groupFor node) := by
  cases node with
  | none => exact forewarns_throw _
  | some node =>
    refine (blameless_seq (blameless_ask (.get node.name)) fun found => ?_).forewarns
    cases found with
    | none => exact blameless_return _
    | some server => exact blameless_seq (blameless_ask .list) fun _ => blameless_return _

theorem forewarns_increaseSize (id : String) (delta : Int32) (s : Store) :
    Forewarns s (increaseSize id delta) := by
  refine forewarns_seq (forewarns_checkGroup id s) fun _ => ?_
  split
  · exact blameless_return _
  · refine blameless_seq (blameless_flip _ _ _) fun provisioned => ?_
    split
    · exact blameless_throw not_false
    · exact blameless_return _

theorem forewarns_decreaseTargetSize (id : String) (delta : Int32) (s : Store) :
    Forewarns s (decreaseTargetSize id delta) := by
  refine forewarns_seq (forewarns_checkGroup id s) fun _ => ?_
  split
  · exact blameless_return _
  · exact blameless_seq (blameless_flip _ _ _) fun _ => blameless_return _

/-! ## Giving back nodes -/

/-- What becomes of the first node, in three cases, whatever nodes follow. -/
theorem run_turnOff_cons (node : Node) (s : Store) :
    -- It is unknown.
    (s.get node.name = none ∧
      ∀ rest, (turnOff (node :: rest)).run.run s = (.error (.unknownNode node.name), s)) ∨
    -- The store refuses to turn it off.
    (∃ refusal after, ∀ rest, (turnOff (node :: rest)).run.run s = (.error (.store refusal), after)) ∨
    -- It is turned off, and the rest follows.
    ∃ found mid, s.get node.name = some found ∧
      s.updatePowerState found.name found.version? .off = (.ok (), mid) ∧
      ∀ rest, (turnOff (node :: rest)).run.run s = (turnOff rest).run.run mid := by
  have hget : (ask (.get node.name)).run.run s = (.ok (s.get node.name), s) := run_ask ..
  cases hg : s.get node.name with
  | none =>
    rw [hg] at hget
    exact .inl ⟨rfl, fun rest => run_seq_of_ok hget⟩
  | some found =>
    right
    rw [hg] at hget
    have hask : (ask (.updatePowerState found.name found.version? .off)).run.run s =
        ((s.updatePowerState found.name found.version? .off).1.mapError .store,
          (s.updatePowerState found.name found.version? .off).2) := run_ask ..
    cases hwrite : s.updatePowerState found.name found.version? .off with
    | mk answer mid =>
      rw [hwrite] at hask
      cases answer with
      | error refusal =>
        exact .inl ⟨refusal, mid, fun rest => (run_seq_of_ok hget).trans (run_seq_of_error hask)⟩
      | ok =>
        exact .inr ⟨found, mid, rfl, hwrite,
          fun rest => (run_seq_of_ok hget).trans (run_seq_of_ok hask)⟩

/-- A write that goes through found the record. -/
theorem write_of_ok {name : String} {version : Option String} {state : PowerState}
    (h : s.updatePowerState name version state = (.ok (), after)) :
    ∃ server : Server, s.get name = some server ∧
      after = s.commit name (server.withPowerState state) := by
  have hok : (s.write name version (·.withPowerState state)).1.isOk := by
    show (s.updatePowerState name version state).1.isOk
    rw [h]
    rfl
  obtain ⟨server, hg, -, hw⟩ := Store.write_ok hok
  exact ⟨server, hg, (congrArg Prod.snd h).symm.trans hw⟩

/-- Giving back stops at the first unknown node, and those before it are turned off by then. -/
theorem turnOff_stops {nodes : List Node} (h : (turnOff nodes).run.run s = (.error e, after))
    (he : e.BlamesCall) :
    ∃ earlier node rest, nodes = earlier ++ node :: rest ∧ e = .unknownNode node.name ∧
      s.get node.name = none ∧ (turnOff earlier).run.run s = (.ok (), after) := by
  induction nodes generalizing s with
  | nil => cases h
  | cons node rest ih =>
    rcases run_turnOff_cons node s with
      ⟨hnone, hrun⟩ | ⟨refusal, after', hrun⟩ | ⟨found, mid, -, hwrite, hrun⟩ <;>
      rw [hrun] at h
    · cases h
      exact ⟨[], node, rest, rfl, rfl, hnone, rfl⟩
    · cases h
      cases he
    · obtain ⟨earlier, unknown, later, rfl, hunknown, hnone, hearlier⟩ := ih h
      obtain ⟨server, -, rfl⟩ := write_of_ok hwrite
      have hnone' : s.get unknown.name = none := by
        rw [Store.get_commit] at hnone
        split at hnone
        · cases hnone
        · exact hnone
      exact ⟨node :: earlier, unknown, later, rfl, hunknown, hnone', (hrun earlier).trans hearlier⟩

/-- The record called `name` says that its machine should be off. -/
def SwitchedOff (s : Store) (name : String) : Prop :=
  ∃ server, s.get name = some server ∧ server.spec.powerState = some .off

theorem switchedOff_commit (s : Store) (name : String) (server : Server) {n : String}
    (h : n = name ∨ SwitchedOff s n) :
    SwitchedOff (s.commit name (server.withPowerState .off)) n := by
  unfold SwitchedOff
  rw [Store.get_commit]
  by_cases hn : n = name
  · rw [if_pos hn]
    exact ⟨_, rfl, rfl⟩
  · rw [if_neg hn]
    exact h.resolve_left hn

/-- Every node given back is known, and one write turns its machine off for good. -/
theorem turnOff_done {nodes : List Node} (h : (turnOff nodes).run.run s = (.ok (), after)) :
    after.writes = s.writes + nodes.length ∧
    (∀ name, SwitchedOff s name → SwitchedOff after name) ∧
    ∀ node ∈ nodes, ∃ found, s.get node.name = some found ∧ SwitchedOff after found.name := by
  induction nodes generalizing s with
  | nil =>
    cases h
    exact ⟨rfl, fun _ hoff => hoff, by simp⟩
  | cons node rest ih =>
    rcases run_turnOff_cons node s with
      ⟨-, hrun⟩ | ⟨refusal, after', hrun⟩ | ⟨found, mid, hg, hwrite, hrun⟩ <;>
      rw [hrun] at h
    · cases h
    · cases h
    · obtain ⟨hwrites, hkeeps, hrest⟩ := ih h
      have hview : mid.adapterView = s.adapterView := by
        have hmid : mid = (s.updatePowerState found.name found.version? .off).2 := by rw [hwrite]
        rw [hmid]
        exact Store.serve_adapterView (.updatePowerState found.name found.version? .off) s trivial
      obtain ⟨server, -, rfl⟩ := write_of_ok hwrite
      refine ⟨?_, fun name hoff => hkeeps name (switchedOff_commit s _ _ (.inr hoff)), ?_⟩
      · rw [hwrites, List.length_cons]
        show s.writes + 1 + rest.length = s.writes + (rest.length + 1)
        omega
      · intro n hn
        rcases List.mem_cons.1 hn with rfl | hn
        · exact ⟨found, hg, hkeeps _ (switchedOff_commit s _ _ (.inl rfl))⟩
        · obtain ⟨later, hlater, hoff⟩ := hrest n hn
          obtain ⟨earlier, hearlier, hsame⟩ := Store.status_of_adapterView hview.symm hlater
          have hname : earlier.name = later.name := (congrArg Server.name hsame :)
          exact ⟨earlier, hearlier, hname ▸ hoff⟩

/-! ## Main theorem -/

/-- The call gives back nodes, and the first of them is known. -/
def KnowsFirst (s : Store) : PoolCall → Prop
  | .deleteNodes id nodes => id = groupId ∧ ∃ first ∈ nodes.head?, (s.get first.name).isSome
  | _ => False

/-- The call gave back nodes up to an unknown one: the machines of those before it are off by now, with
one write each. -/
def StopsHalfway (s : Store) (call : PoolCall) (e : PoolError) (after : Store) : Prop :=
  ∃ earlier node rest, call = .deleteNodes groupId (earlier ++ node :: rest) ∧
    e = .unknownNode node.name ∧ s.get node.name = none ∧
    after.writes = s.writes + earlier.length ∧
    ∀ n ∈ earlier, ∃ found, s.get n.name = some found ∧ SwitchedOff after found.name

theorem forewarns_session {call : PoolCall} (h : ∀ id nodes, call ≠ .deleteNodes id nodes)
    (s : Store) : Forewarns s call.session := by
  cases call with
  | groupFor node => exact forewarns_seq (forewarns_groupFor node s) fun _ => blameless_return _
  | increaseSize id delta =>
    exact forewarns_seq (forewarns_increaseSize id delta s) fun _ => blameless_return _
  | decreaseTargetSize id delta =>
    exact forewarns_seq (forewarns_decreaseTargetSize id delta s) fun _ => blameless_return _
  | targetSize id | instances id =>
    refine forewarns_seq (forewarns_seq (forewarns_checkGroup id s) fun _ => ?_) fun _ => blameless_return _
    exact blameless_seq (blameless_ask .list) fun _ => blameless_return _
  | groups | gpuTypeCounts =>
    refine (blameless_seq ?_ fun _ => blameless_return _).forewarns
    exact blameless_seq (blameless_ask .list) fun _ => blameless_return _
  | deleteNodes id nodes => exact absurd rfl (h id nodes)

/-- A call that gives back nodes is refused for its group before it looks at them, or for one of the
nodes. -/
theorem deleteNodes_of_error {id : String} {nodes : List Node}
    (h : (PoolCall.deleteNodes id nodes).session.run.run s = (.error e, after)) :
    (id ≠ groupId ∧ after = s) ∨ (id = groupId ∧ (turnOff nodes).run.run s = (.error e, after)) := by
  rcases error_of_seq h with h | ⟨_, _, -, h⟩
  · have hcheck := run_checkGroup id s
    by_cases hid : id = groupId
    · rw [if_pos hid] at hcheck
      exact .inr ⟨hid, (run_seq_of_ok hcheck).symm.trans h⟩
    · rw [if_neg hid] at hcheck
      have hrun : (deleteNodes id nodes).run.run s = (.error (.unknownNodeGroup id), s) :=
        run_seq_of_error hcheck
      exact .inl ⟨hid, (congrArg Prod.snd (hrun.symm.trans h)).symm⟩
  · cases h

/-- A refusal that blames the call leaves the store as it was, unless the call gives back nodes and the
first of them is known. Then it stops halfway. -/
theorem refusal_spares_store_iff {call : PoolCall}
    (h : call.session.run.run s = (.error e, after)) (he : e.BlamesCall) :
    (after = s ↔ ¬ KnowsFirst s call) ∧
    (KnowsFirst s call → StopsHalfway s call e after) := by
  have hspared (hs : after = s) (hk : ¬ KnowsFirst s call) :
      (after = s ↔ ¬ KnowsFirst s call) ∧ (KnowsFirst s call → StopsHalfway s call e after) :=
    ⟨iff_of_true hs hk, fun hknows => absurd hknows hk⟩
  cases call with
  | deleteNodes id nodes =>
    rcases deleteNodes_of_error h with ⟨hid, hs⟩ | ⟨rfl, hrun⟩
    · exact hspared hs fun hk => hid hk.1
    · obtain ⟨earlier, node, rest, rfl, rfl, hnone, hearlier⟩ := turnOff_stops hrun he
      obtain ⟨hwrites, -, hoff⟩ := turnOff_done hearlier
      cases earlier with
      | nil =>
        refine hspared (congrArg Prod.snd hearlier).symm ?_
        rintro ⟨-, first, hfirst, hknown⟩
        cases hfirst
        rw [hnone] at hknown
        cases hknown
      | cons first more =>
        obtain ⟨found, hfound, -⟩ := hoff first List.mem_cons_self
        have hknows : KnowsFirst s (.deleteNodes groupId (first :: more ++ node :: rest)) :=
          ⟨rfl, first, rfl, by rw [hfound]; rfl⟩
        have hne : after ≠ s := by
          rintro rfl
          rw [List.length_cons] at hwrites
          omega
        exact ⟨iff_of_false hne (not_not_intro hknows),
          fun _ => ⟨first :: more, node, rest, rfl, rfl, hnone, hwrites, hoff⟩⟩
  | _ => exact hspared (forewarns_session (fun _ _ heq => by cases heq) s e after h he) not_false

/-- An unknown node is refused without a write if it stands first, and behind a known one only once that
one is turned off. -/
theorem refusal_spares_store_ghost :
    let machine : Server := { metadata := { name := some "m1" }, spec := { powerState := some .on } }
    let s := Store.insert {} machine
    let off := s.commit "m1" ((machine.withPowerState .off).withVersion "1")
    let ghostFirst := PoolCall.deleteNodes groupId [{ name := "ghost" }, { name := "m1" }]
    let ghostLast := PoolCall.deleteNodes groupId [{ name := "m1" }, { name := "ghost" }]
    (PoolError.unknownNode "ghost").BlamesCall ∧
      ghostFirst.session.run.run s = (.error (.unknownNode "ghost"), s) ∧ ¬ KnowsFirst s ghostFirst ∧
      ghostLast.session.run.run s = (.error (.unknownNode "ghost"), off) ∧
      StopsHalfway s ghostLast (.unknownNode "ghost") off := by
  intro machine s off ghostFirst ghostLast
  have hblames : (PoolError.unknownNode "ghost").BlamesCall := trivial
  have hfirst : ghostFirst.session.run.run s = (.error (.unknownNode "ghost"), s) := by
    decide +kernel
  have hlast : ghostLast.session.run.run s = (.error (.unknownNode "ghost"), off) := by
    decide +kernel
  have hknows : KnowsFirst s ghostLast := ⟨rfl, _, rfl, by decide +kernel⟩
  exact ⟨hblames, hfirst, (refusal_spares_store_iff hfirst hblames).1.1 rfl, hlast,
    (refusal_spares_store_iff hlast hblames).2 hknows⟩

/-- A refusal that blames the call can leave another store behind: one node is unknown, and the machine of
the one before it is turned off. -/
theorem refused_call_turns_off :
    let machine : Server := { metadata := { name := some "m1" }, spec := { powerState := some .on } }
    let s := Store.insert {} machine
    let run := (PoolCall.deleteNodes groupId [{ name := "m1" }, { name := "ghost" }]).session.run.run s
    run.1 = .error (.unknownNode "ghost") ∧ (PoolError.unknownNode "ghost").BlamesCall ∧
      run.2 ≠ s ∧ run.2.writes = 1 ∧
      (run.2.get "m1").bind (·.spec.powerState) = some .off ∧
      (s.get "m1").bind (·.spec.powerState) = some .on := by
  exact ⟨by decide +kernel, trivial, by decide +kernel, by decide +kernel, by decide +kernel,
    by decide +kernel⟩

end Pool

end MetalPool
