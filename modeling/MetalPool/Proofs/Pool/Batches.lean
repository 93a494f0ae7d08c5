import MetalPool.Proofs.Pool.Resize
import MetalPool.Proofs.Store.Listing
/-!
# Resizing in two calls

A call that resizes the pool takes machines from the front of the list of those
that are not as they should be, and what it takes is as it should be from then
on. So the next call finds the rest of the same list (`due_turned`), in the same
order and at the same versions, and two calls in a row leave behind what one call
for both deltas does, whether the machines are enough for both calls, for one of
them or for none.
-/

namespace MetalPool

variable {s : Store} {source target : PowerState} {server : Server}

namespace Store

/-- The machines whose desired state is `source`, by name. -/
def due (s : Store) (source : PowerState) : List Server := s.list.filter (·.spec.desired = source)

theorem turned_append (s : Store) (target : PowerState) (servers rest : List Server) :
    s.turned target (servers ++ rest) = (s.turned target servers).turned target rest :=
  List.foldl_append

theorem conflicts_turned (s : Store) (target : PowerState) (servers : List Server) :
    (s.turned target servers).conflicts = s.conflicts := by
  induction servers generalizing s with
  | nil => rfl
  | cons server rest ih => exact ih (s.commit server.name (server.withPowerState target))

theorem mem_due (h : s.Numbered) :
    server ∈ s.due source ↔ s.get server.name = some server ∧ server.spec.desired = source := by
  simp [due, h.mem_list]

theorem due_sorted (h : s.Numbered) (source : PowerState) :
    ((s.due source).map Server.name).Pairwise (· < ·) :=
  h.list_sorted.sublist (List.filter_sublist.map _)

/-- A machine is found as it was, and still due, unless it is one of those turned. -/
theorem get_turned_due {servers : List Server} (hn : (servers.map Server.name).Nodup)
    (hne : source ≠ target) :
    (s.turned target servers).get server.name = some server ∧ server.spec.desired = source ↔
      server.name ∉ servers.map Server.name ∧ s.get server.name = some server ∧
        server.spec.desired = source := by
  constructor
  · rintro ⟨hg, hdesired⟩
    have hfresh : server.name ∉ servers.map Server.name := by
      intro hm
      obtain ⟨first, hfirst, hname⟩ := List.mem_map.1 hm
      obtain ⟨version, hturned⟩ : ∃ version, (s.turned target servers).get first.name =
          some ((first.withPowerState target).withVersion version) := get_turned_of_mem hn hfirst
      rw [hname, hg] at hturned
      cases hturned
      exact hne hdesired.symm
    rw [get_turned_of_not_mem hfresh] at hg
    exact ⟨hfresh, hg, hdesired⟩
  · rintro ⟨hfresh, hg, hdesired⟩
    rw [get_turned_of_not_mem hfresh]
    exact ⟨hg, hdesired⟩

/-- What was turned is no longer due, and the rest is due as before. -/
theorem due_turned (h : s.Numbered) (hne : source ≠ target) (n : Nat) :
    (s.turned target ((s.due source).take n)).due source = (s.due source).drop n := by
  have hnumbered := h.turned target ((s.due source).take n)
  have hsorted := due_sorted h source
  have hlater := due_sorted hnumbered source
  have hrest := hsorted.sublist ((List.drop_sublist n (s.due source)).map Server.name)
  have hnodup : (((s.due source).take n ++ (s.due source).drop n).map Server.name).Nodup := by
    rw [List.take_append_drop]
    exact hsorted.imp fun hlt => String.ne_of_lt hlt
  rw [List.map_append, List.nodup_append] at hnodup
  obtain ⟨hfirst, -, hapart⟩ := hnodup
  have hmem : ∀ server, server ∈ (s.turned target ((s.due source).take n)).due source ↔
      server ∈ (s.due source).drop n := by
    intro server
    rw [mem_due hnumbered, get_turned_due hfirst hne, ← mem_due h]
    constructor
    · rintro ⟨hfresh, hm⟩
      rw [← List.take_append_drop n (s.due source)] at hm
      rcases List.mem_append.1 hm with hm | hm
      · exact absurd (List.mem_map_of_mem hm) hfresh
      · exact hm
    · intro hm
      refine ⟨?_, List.mem_of_mem_drop hm⟩
      intro hfresh
      exact hapart _ hfresh _ (List.mem_map_of_mem hm) rfl
  have hdistinct : ∀ servers : List Server, (servers.map Server.name).Pairwise (· < ·) →
      servers.Nodup := by
    intro servers hs
    exact (List.pairwise_map.1 hs).imp fun hlt he => String.ne_of_lt hlt (congrArg Server.name he)
  have hperm := (List.perm_ext_iff_of_nodup (hdistinct _ hlater) (hdistinct _ hrest)).2 hmem
  exact eq_of_names_sorted hperm hlater hrest

end Store

namespace Pool

open Store

/-! ## One call -/

/-- With no conflict pending, the call turns the first of the machines due, as many as the delta says or
all there are, and then ends as `ends` says of the two numbers. -/
def TurnsDue (call : Int32 → PoolSession Unit) (source target : PowerState)
    (ends : Nat → Nat → Except PoolError Unit) : Prop :=
  ∀ (s : Store) (delta : Int32), s.Numbered → s.conflicts = [] →
    (call delta).run.run s = (ends delta.toInt.toNat (s.due source).length,
      s.turned target ((s.due source).take delta.toInt.toNat))

theorem run_flip (h : s.Numbered) (hfree : s.conflicts = []) (n : Nat) (source target : PowerState) :
    (flip n source target).run.run s =
      (.ok ((s.due source).take n).length, s.turned target ((s.due source).take n)) := by
  have hstands : s.Stands ((s.due source).take n) :=
    h.stands.sublist ((List.take_sublist ..).trans List.filter_sublist)
  have hflip : (flip n source target).run.run s =
      (setAll target ((s.due source).take n)).run.run s := run_seq_of_ok (run_ask .list s)
  rw [hflip, run_setAll hstands target]
  intro server _
  simp [hfree]

/-- How a call ends that is to turn on `requested` machines where `free` are off. -/
def endOfGrowth (requested free : Nat) : Except PoolError Unit :=
  if free < requested then .error (.insufficientCapacity requested free) else .ok ()

theorem turnsDue_increaseSize : TurnsDue (increaseSize groupId) .off .on endOfGrowth := by
  intro s delta h hfree
  have hcheck : (increaseSize groupId delta).run.run s = _ := run_seq_of_ok (run_checkGroup groupId s)
  rw [hcheck]
  by_cases hd : delta ≤ 0
  · have hzero : delta.toInt.toNat = 0 := Int.toNat_of_nonpos (toInt_nonpos hd)
    rw [if_pos hd, hzero]
    rfl
  · rw [if_neg hd]
    refine (run_seq_of_ok (run_flip h hfree _ .off .on)).trans ?_
    unfold endOfGrowth
    rw [List.length_take]
    by_cases hfew : (s.due .off).length < delta.toInt.toNat
    · rw [if_pos (by omega), if_pos hfew, Nat.min_eq_right (by omega)]
      rfl
    · rw [if_neg (by omega), if_neg hfew]
      rfl

theorem turnsDue_decreaseTargetSize :
    TurnsDue (decreaseTargetSize groupId) .on .off fun _ _ => .ok () := by
  intro s delta h hfree
  have hcheck : (decreaseTargetSize groupId delta).run.run s = _ :=
    run_seq_of_ok (run_checkGroup groupId s)
  rw [hcheck]
  by_cases hd : delta ≤ 0
  · have hzero : delta.toInt.toNat = 0 := Int.toNat_of_nonpos (toInt_nonpos hd)
    rw [if_pos hd, hzero]
    rfl
  · rw [if_neg hd]
    exact run_seq_of_ok (run_flip h hfree _ .on .off)

/-! ## Two calls -/

/-- A call for `a` and then one for `b` leave the store that a call for both does, and end well if and
only if that call does. -/
structure AddsUp (call : Int32 → PoolSession Unit) (a b : Int32) (s : Store) : Prop where
  store_eq :
    ((call b).run.run ((call a).run.run s).2).2 = ((call (a + b)).run.run s).2
  ok_iff :
    ((call (a + b)).run.run s).1 = .ok () ↔
      ((call a).run.run s).1 = .ok () ∧ ((call b).run.run ((call a).run.run s).2).1 = .ok ()

theorem toNat_add {a b : Int32} (ha : 0 ≤ a) (hb : 0 ≤ b) (hsum : a.toInt + b.toInt ≤ 2147483647) :
    (a + b).toInt.toNat = a.toInt.toNat + b.toInt.toNat := by
  rw [Int32.le_iff_toInt_le, Int32.toInt_zero] at ha hb
  have hadd : (a + b).toInt = a.toInt + b.toInt := by
    rw [Int32.toInt_add]
    exact Int.bmod_eq_of_le (by omega) (by omega)
  omega

theorem TurnsDue.addsUp {call : Int32 → PoolSession Unit} {ends : Nat → Nat → Except PoolError Unit}
    (h : TurnsDue call source target ends) (hne : source ≠ target)
    (hends : ∀ a b n, ends (a + b) n = .ok () ↔ ends a n = .ok () ∧ ends b (n - a) = .ok ())
    (hs : s.Numbered) (hfree : s.conflicts = []) {a b : Int32} (ha : 0 ≤ a) (hb : 0 ≤ b)
    (hsum : a.toInt + b.toInt ≤ 2147483647) : AddsUp call a b s := by
  have hfirst := h s a hs hfree
  have hboth := h s (a + b) hs hfree
  rw [toNat_add ha hb hsum] at hboth
  have hsecond := h (s.turned target ((s.due source).take a.toInt.toNat)) b (hs.turned target _)
    ((conflicts_turned ..).trans hfree)
  rw [due_turned hs hne, List.length_drop] at hsecond
  constructor
  · rw [hfirst, hsecond, hboth, List.take_add, turned_append]
  · rw [hfirst, hsecond, hboth]
    exact hends ..

/-! ## Main theorem -/

/-- After any history of the records that leaves no conflict pending, resizing the pool by `a` and then by
`b` comes to the same store, versions and counts included, as resizing it by both at once. Both calls end
well if and only if the one call does. -/
theorem resizing_adds_up (before : List StoreEvent) {a b : Int32} (ha : 0 ≤ a) (hb : 0 ≤ b)
    (hsum : a.toInt + b.toInt ≤ 2147483647) (hfree : (Store.after {} before).conflicts = []) :
    AddsUp (increaseSize groupId) a b (Store.after {} before) ∧
      AddsUp (decreaseTargetSize groupId) a b (Store.after {} before) := by
  have hs : (Store.after {} before).Numbered := numbered_empty.after before
  constructor
  · refine turnsDue_increaseSize.addsUp (by decide) ?_ hs hfree ha hb hsum
    intro a b n
    unfold endOfGrowth
    by_cases hfew : n < a + b
    · rw [if_pos hfew]
      refine iff_of_false nofun ?_
      rintro ⟨hfirst, hsecond⟩
      split at hfirst
      · cases hfirst
      · rw [if_pos (by omega)] at hsecond
        cases hsecond
    · rw [if_neg hfew, if_neg (by omega), if_neg (by omega)]
      exact iff_of_true rfl ⟨rfl, rfl⟩
  · refine turnsDue_decreaseTargetSize.addsUp (by decide) ?_ hs hfree ha hb hsum
    intro a b n
    exact iff_of_true rfl ⟨rfl, rfl⟩

/-- Two machines are off, and three are asked for: by one call, or by two of which the first has enough. -/
theorem resizing_adds_up_short :
    let machine (name : String) (state : Option PowerState) : Server :=
      { metadata := { name := some name }, spec := { powerState := state } }
    let before : List StoreEvent :=
      [.insert (machine "m3" none), .insert (machine "m2" (some .on)), .insert (machine "m1" none)]
    let s := Store.after {} before
    let first := (increaseSize groupId 1).run.run s
    let second := (increaseSize groupId 2).run.run first.2
    let both := (increaseSize groupId (1 + 2)).run.run s
    s.conflicts = [] ∧ second.2 = both.2 ∧ both.2.writes = 2 ∧ first.1 = .ok () ∧
      second.1 = .error (.insufficientCapacity 2 1) ∧ both.1 ≠ .ok () ∧
      AddsUp (decreaseTargetSize groupId) 1 2 s := by
  intro machine before s first second both
  have hfree : s.conflicts = [] := rfl
  obtain ⟨hgrown, hshrunk⟩ := resizing_adds_up before (show (0 : Int32) ≤ 1 by decide)
    (show (0 : Int32) ≤ 2 by decide) (by decide) hfree
  have hsecond : second.1 = .error (.insufficientCapacity 2 1) := by decide +kernel
  refine ⟨hfree, hgrown.store_eq, by decide +kernel, by decide +kernel, hsecond, ?_, hshrunk⟩
  intro hok
  have hlast : second.1 = .ok () := (hgrown.ok_iff.1 hok).2
  rw [hsecond] at hlast
  cases hlast

end Pool

end MetalPool
