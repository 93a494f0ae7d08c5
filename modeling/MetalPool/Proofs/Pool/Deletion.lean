import MetalPool.Proofs.Pool.Resize
/-!
# Giving back nodes

A call that gives back nodes turns off their machines one after the other, and
reads each record just before it writes it. So a name that is listed twice is
found at the version of its own earlier write, and a write can only meet a
conflict that was pending before the call (`run_turnOff_of_get`). What is turned
off is the longest part of the list, from its start, in which every name has a
record and no conflict pending (`run_turnOff`).
-/

namespace MetalPool

variable {s after : Store} {name : String} {names : List String} {server : Server} {node : Node}

namespace Store

/-- The machine called `name` can be turned off: there is a record of it, and no conflict is pending. -/
def yields (s : Store) (name : String) : Bool := (s.get name).isSome && !s.conflicts.contains name

/-- Each of the records called `names` was turned off, with a write for each time that its name is listed,
and no other record was changed. -/
structure Releases (s after : Store) (names : List String) : Prop where
  writes_eq : after.writes = s.writes + names.length
  off : ∀ name ∈ names, ∃ server version, s.get name = some server ∧
    after.get name = some ((server.withPowerState .off).withVersion version)
  others : ∀ name ∉ names, after.get name = s.get name

theorem Releases.none (s : Store) : s.Releases s [] := by
  constructor <;> simp

/-- A pending conflict is no record. -/
theorem Releases.spend (h : s.Releases after names) (name : String) :
    s.Releases (after.spend name) names :=
  ⟨h.writes_eq, h.off, h.others⟩

/-- A record that was turned off is found as it was before that, but for its desired state and version. -/
theorem Releases.cons (hg : s.get name = some server)
    (h : (s.commit name (server.withPowerState .off)).Releases after names) :
    s.Releases after (name :: names) := by
  constructor
  · rw [h.writes_eq, List.length_cons, Nat.add_comm names.length, ← Nat.add_assoc]
    rfl
  · intro n hn
    by_cases hlater : n ∈ names
    · obtain ⟨found, version, hfound, hoff⟩ := h.off n hlater
      rw [get_commit] at hfound
      split at hfound
      · rename_i heq
        cases hfound
        exact ⟨server, version, heq ▸ hg, hoff⟩
      · exact ⟨found, version, hfound, hoff⟩
    · have heq : n = name := (List.mem_cons.1 hn).resolve_right hlater
      have hoff := h.others n hlater
      rw [get_commit, if_pos heq] at hoff
      exact ⟨server, s.nextVersion, heq ▸ hg, hoff⟩
  · intro n hn
    rw [List.mem_cons, not_or] at hn
    rw [h.others n hn.2, get_commit, if_neg hn.1]

/-- A write gives no name a record and takes none away, and leaves the pending conflicts as they are. -/
theorem isSome_commit (hg : s.get name = some server) (changed : Server) (n : String) :
    ((s.commit name changed).get n).isSome = (s.get n).isSome := by
  rw [get_commit]
  by_cases hn : n = name
  · simp [hn, hg]
  · simp [hn]

theorem yields_commit (hg : s.get name = some server) (changed : Server) :
    (s.commit name changed).yields = s.yields := by
  funext n
  unfold yields
  rw [isSome_commit hg]
  rfl

/-! ## The target size -/

/-- Machines outside `names` count as before. -/
theorem Releases.filter_eq (h : s.Releases after names) :
    (after.records.filter fun name _ => !names.contains name) =
      s.records.filter fun name _ => !names.contains name := by
  apply SortedMap.ext_get?
  intro n
  rw [SortedMap.get?_filter, SortedMap.get?_filter]
  by_cases hn : n ∈ names
  · cases after.records.get? n <;> cases s.records.get? n <;> simp [Option.filter, hn]
  · rw [show after.records.get? n = s.records.get? n from h.others n hn]

/-- Of the machines called `names`, none counts any more. -/
theorem Releases.countP_off (h : s.Releases after names) :
    (after.records.entries.filter fun e => names.contains e.1).countP (fun e => Pool.isRunning e.2) = 0 := by
  rw [List.countP_eq_zero]
  intro e he
  obtain ⟨he, hnamed⟩ := List.mem_filter.1 he
  obtain ⟨server, version, -, hoff⟩ := h.off e.1 (by simpa using hnamed)
  rw [show after.get e.1 = some e.2 from SortedMap.get?_of_mem he] at hoff
  rw [Option.some.inj hoff]
  exact Bool.false_ne_true

/-- The target size goes down by the machines that were on and are among those turned off, each of which
counts once. -/
theorem Releases.countP_eq (h : s.Releases after names) (hs : s.Numbered) :
    s.list.countP Pool.isRunning = after.list.countP Pool.isRunning +
      s.list.countP fun server => Pool.isRunning server && names.contains server.name := by
  have hsplit : ∀ t : Store, t.list.countP Pool.isRunning =
      (t.records.entries.filter fun e => names.contains e.1).countP (fun e => Pool.isRunning e.2) +
        (t.records.filter fun name _ => !names.contains name).entries.countP
          (fun e => Pool.isRunning e.2) := by
    intro t
    unfold list SortedMap.values
    rw [List.countP_map]
    exact List.countP_eq_countP_filter_add ..
  have hnamed : (s.records.entries.filter fun e => names.contains e.1).countP
      (fun e => Pool.isRunning e.2) =
        s.list.countP fun server => Pool.isRunning server && names.contains server.name := by
    unfold list SortedMap.values
    rw [List.countP_filter, List.countP_map]
    apply List.countP_congr
    intro e he
    have hname := (hs e.1 e.2 (SortedMap.get?_of_mem he)).1
    simp [hname]
  rw [hsplit s, hsplit after, h.countP_off, h.filter_eq, hnamed]
  omega

end Store

namespace Pool

open Store

/-! ## The loop -/

theorem run_turnOff_of_none (hg : s.get node.name = none) (rest : List Node) :
    (turnOff (node :: rest)).run.run s = (.error (.unknownNode node.name), s) := by
  have hget : (ask (.get node.name)).run.run s = (.ok (s.get node.name), s) := run_ask ..
  rw [hg] at hget
  exact run_seq_of_ok hget

/-- The record is found as it is, whatever was written to it before, and turned off unless a conflict is
pending for it. -/
theorem run_turnOff_of_get (hs : s.Numbered) (hg : s.get node.name = some server) (rest : List Node) :
    (turnOff (node :: rest)).run.run s =
      if node.name ∈ s.conflicts then
        (.error (.store (.conflict node.name)), s.spend node.name)
      else (turnOff rest).run.run (s.commit node.name (server.withPowerState .off)) := by
  have hget : (ask (.get node.name)).run.run s = (.ok (s.get node.name), s) := run_ask ..
  have hask : (ask (.updatePowerState server.name server.version? .off)).run.run s =
      ((s.updatePowerState server.name server.version? .off).1.mapError .store,
        (s.updatePowerState server.name server.version? .off).2) := run_ask ..
  rw [(hs node.name server hg).1, updatePowerState_of_get hg] at hask
  rw [hg] at hget
  refine (run_seq_of_ok hget).trans ?_
  dsimp only
  rw [(hs node.name server hg).1]
  by_cases hc : node.name ∈ s.conflicts
  · rw [if_pos hc] at hask ⊢
    exact run_seq_of_error hask
  · rw [if_neg hc] at hask ⊢
    exact run_seq_of_ok hask

/-- How the call ends whose first node that is not given back is `node`. -/
def endOfRelease (s : Store) : List Node → Except PoolError Unit
  | [] => .ok ()
  | node :: _ =>
    if (s.get node.name).isSome then .error (.store (.conflict node.name))
    else .error (.unknownNode node.name)

/-- The nodes are given back up to the first that is unknown or in conflict. -/
theorem run_turnOff (hs : s.Numbered) (nodes : List Node) :
    ((turnOff nodes).run.run s).1 = endOfRelease s (nodes.dropWhile (s.yields ·.name)) ∧
      s.Releases ((turnOff nodes).run.run s).2 ((nodes.takeWhile (s.yields ·.name)).map (·.name)) := by
  induction nodes generalizing s with
  | nil => exact ⟨rfl, .none s⟩
  | cons node rest ih =>
    cases hg : s.get node.name with
    | none =>
      have hyields : s.yields node.name = false := by simp [yields, hg]
      rw [run_turnOff_of_none hg, List.dropWhile_cons_of_neg (by simp [hyields]),
        List.takeWhile_cons_of_neg (by simp [hyields])]
      exact ⟨by simp [endOfRelease, hg], .none s⟩
    | some server =>
      rw [run_turnOff_of_get hs hg]
      by_cases hc : node.name ∈ s.conflicts
      · have hyields : s.yields node.name = false := by simp [yields, hc]
        rw [if_pos hc, List.dropWhile_cons_of_neg (by simp [hyields]),
          List.takeWhile_cons_of_neg (by simp [hyields])]
        exact ⟨by simp [endOfRelease, hg], (Releases.none s).spend node.name⟩
      · have hyields : s.yields node.name = true := by simp [yields, hg, hc]
        have hname := (hs node.name server hg).1
        have hcommit := hs.commit (server.withPowerState .off)
        rw [show (server.withPowerState .off).name = node.name from hname] at hcommit
        obtain ⟨hend, hreleases⟩ := ih hcommit
        rw [yields_commit hg] at hend hreleases
        rw [if_neg hc, List.dropWhile_cons_of_pos (by simp [hyields]),
          List.takeWhile_cons_of_pos (by simp [hyields])]
        refine ⟨hend.trans ?_, hreleases.cons hg⟩
        cases rest.dropWhile (s.yields ·.name) with
        | nil => rfl
        | cons next _ => simp only [endOfRelease, isSome_commit hg]

/-- A node that is not given back ends the call, for one of two reasons. -/
theorem endOfRelease_cons (h : s.yields node.name = false) (rest : List Node) :
    (s.get node.name = none ∧ endOfRelease s (node :: rest) = .error (.unknownNode node.name)) ∨
      (s.get node.name ≠ none ∧ node.name ∈ s.conflicts ∧
        endOfRelease s (node :: rest) = .error (.store (.conflict node.name))) := by
  cases hg : s.get node.name with
  | none =>
    left
    exact ⟨rfl, by simp [endOfRelease, hg]⟩
  | some server =>
    right
    have hc : node.name ∈ s.conflicts := by simpa [yields, hg] using h
    exact ⟨nofun, hc, by simp [endOfRelease, hg]⟩

/-! ## Main theorem -/

/-- Nodes given back to the pool after any history of the records. Those up to the first whose name has no
record or a conflict pending are turned off, with one write for each node listed, and nothing else is
changed. The call ends well if these are all of them, and is refused for the next one otherwise; it never
comes into conflict with itself. If it ends well, the target size goes down by the machines named that
were on, each counted once. -/
theorem deletion_exact (before : List StoreEvent) (nodes : List Node) :
    let s := Store.after {} before
    let given := nodes.takeWhile (s.yields ·.name)
    let run := (deleteNodes groupId nodes).run.run s
    s.Releases run.2 (given.map (·.name)) ∧
    (run.1 = .ok () ↔ given = nodes) ∧
    (∀ next rest, nodes = given ++ next :: rest →
      (s.get next.name = none ∧ run.1 = .error (.unknownNode next.name)) ∨
      (s.get next.name ≠ none ∧ next.name ∈ s.conflicts ∧
        run.1 = .error (.store (.conflict next.name)))) ∧
    (∀ name, run.1 = .error (.store (.conflict name)) → name ∈ s.conflicts) ∧
    (run.1 = .ok () → ∃ size size', ((targetSize groupId).run.run s).1 = .ok size ∧
      ((targetSize groupId).run.run run.2).1 = .ok size' ∧
      size = size' + s.list.countP fun server =>
        isRunning server && (nodes.map (·.name)).contains server.name) := by
  intro s given run
  have hs : s.Numbered := numbered_empty.after before
  have hrun : run = (turnOff nodes).run.run s := run_seq_of_ok (run_checkGroup groupId s)
  obtain ⟨hend, hreleases⟩ := run_turnOff hs nodes
  rw [← hrun] at hend hreleases
  have hsplit : given ++ nodes.dropWhile (s.yields ·.name) = nodes := List.takeWhile_append_dropWhile
  have hnext := List.head?_dropWhile_not (s.yields ·.name) nodes
  cases hleft : nodes.dropWhile (s.yields ·.name) with
  | nil =>
    rw [hleft] at hend hsplit
    rw [List.append_nil] at hsplit
    refine ⟨hreleases, iff_of_true hend hsplit, ?_, ?_, ?_⟩
    · intro next rest he
      rw [← hsplit] at he
      simp at he
    · intro name he
      rw [hend] at he
      cases he
    · intro _
      rw [show nodes.takeWhile (s.yields ·.name) = nodes from hsplit] at hreleases
      exact ⟨_, _, targetSize_run s, targetSize_run run.2, hreleases.countP_eq hs⟩
  | cons next rest =>
    rw [hleft] at hend hsplit hnext
    have hstop := endOfRelease_cons (by simpa using hnext) rest
    rw [← hend] at hstop
    have hrefused : run.1 ≠ .ok () := by
      intro hok
      rw [hok] at hstop
      rcases hstop with ⟨-, he⟩ | ⟨-, -, he⟩ <;> cases he
    refine ⟨hreleases, iff_of_false hrefused ?_, ?_, ?_, fun hok => absurd hok hrefused⟩
    · intro hall
      rw [hall] at hsplit
      simp at hsplit
    · intro next' rest' he
      rw [← hsplit] at he
      cases List.append_cancel_left he
      exact hstop
    · intro name he
      rcases hstop with ⟨-, hother⟩ | ⟨-, hc, hother⟩
      · rw [he] at hother
        cases hother
      · rw [he] at hother
        cases hother
        exact hc

/-- A name listed twice is written twice. The third machine has a conflict pending, so that the call stops
there and the unknown node behind it is never looked at; without the last two nodes it ends well, and of
the two machines turned off one was on. -/
theorem deletion_exact_twice :
    let machine (name : String) (state : Option PowerState) : Server :=
      { metadata := { name := some name }, spec := { powerState := state } }
    let before : List StoreEvent :=
      [.insert (machine "m1" (some .on)), .insert (machine "m2" none), .insert (machine "m3" (some .on)),
        .conflictNext "m3"]
    let s := Store.after {} before
    let node (name : String) : Node := { name }
    let first := [node "m1", node "m2", node "m1"]
    let stopped := (deleteNodes groupId (first ++ [node "m3", node "ghost"])).run.run s
    let done := (deleteNodes groupId first).run.run s
    s.Releases stopped.2 ["m1", "m2", "m1"] ∧ stopped.2.writes = 3 ∧
      stopped.1 = .error (.store (.conflict "m3")) ∧ "m3" ∈ s.conflicts ∧
      done.1 = .ok () ∧ ∃ size size', ((targetSize groupId).run.run s).1 = .ok size ∧
        ((targetSize groupId).run.run done.2).1 = .ok size' ∧ size = size' + 1 := by
  intro machine before s node first stopped done
  obtain ⟨hreleases, -, -, hconflict, -⟩ :=
    deletion_exact before (first ++ [node "m3", node "ghost"])
  have hstopped : stopped.1 = .error (.store (.conflict "m3")) := by decide +kernel
  have hgiven : (first ++ [node "m3", node "ghost"]).takeWhile (s.yields ·.name) = first := by
    decide +kernel
  rw [hgiven] at hreleases
  obtain ⟨-, hdone, -, -, hsize⟩ := deletion_exact before first
  have hall : first.takeWhile (s.yields ·.name) = first := by decide +kernel
  have hcount : (s.list.countP fun server =>
      isRunning server && (first.map (·.name)).contains server.name) = 1 := by decide +kernel
  have hended := hsize (hdone.2 hall)
  rw [hcount] at hended
  exact ⟨hreleases, hreleases.writes_eq, hstopped, hconflict "m3" hstopped, hdone.2 hall, hended⟩

end Pool

end MetalPool
