import MetalPool.Power.Ping
/-!
# Probing ends at the first answer

How the runs to come end is a list, `Toolbox.endings`, and what a probe makes of
it is read off its first success (`search_finds`): the runs after it are not
made, all before it are, with a pause between each two, and without one the
machine is not reachable.
-/

namespace MetalPool

theorem RunEnd.succeeded_iff (e : RunEnd) :
    e.succeeded = true ↔ ∃ o, e = .finished o ∧ o.status = .success := by
  cases e with
  | finished o => simp [succeeded, ToolOutput.succeeded]
  | overdue => simp [succeeded]
  | notStarted reason => simp [succeeded]

namespace Toolbox

/-- How the next `n` runs end by the script. -/
def scripted (script : List RunEnd) : Nat → List RunEnd
  | 0 => []
  | n + 1 => (next script).1 :: scripted (next script).2 n

/-- How `n` runs of the command line in a row end. -/
def endings (t : Toolbox) (i : Invocation) (n : Nat) : List RunEnd :=
  if holdsNul i then .replicate n (.notStarted nulMessage)
  else if i.program ∉ t.installed then .replicate n (.notStarted missingMessage)
  else scripted t.script n

variable {t u : Toolbox} {i : Invocation} {e : RunEnd} {n : Nat}

@[simp] theorem log_pause (d : Span) : (t.pause d).log = t.log ++ [.paused d] := rfl

@[simp] theorem endings_pause (d : Span) : (t.pause d).endings i n = t.endings i n := rfl

theorem log_of_run (h : t.run i = (e, u)) : u.log = t.log ++ [.ran i e] := by
  unfold run at h
  split at h
  · cases h
    rfl
  · split at h
    · cases h
      rfl
    · cases h
      rfl

@[simp] theorem endings_zero : t.endings i 0 = [] := by
  unfold endings
  split
  · rfl
  · split
    · rfl
    · rfl

/-- The first of the runs to come is the next one. -/
theorem endings_of_run (h : t.run i = (e, u)) : t.endings i (n + 1) = e :: u.endings i n := by
  unfold run at h
  unfold endings
  split at h
  · rename_i hnul
    cases h
    rw [if_pos hnul, if_pos hnul]
    rfl
  · rename_i hnul
    rw [if_neg hnul, if_neg hnul]
    split at h
    · rename_i hmissing
      cases h
      rw [if_pos hmissing, if_pos hmissing]
      rfl
    · rename_i hmissing
      cases h
      rw [if_neg hmissing, if_neg hmissing]
      rfl

@[simp] theorem length_endings : (t.endings i n).length = n := by
  induction n generalizing t with
  | zero => rw [endings_zero, List.length_nil]
  | succ n ih =>
    rw [endings_of_run rfl, List.length_cons, ih]

theorem scripted_eq_take {script : List RunEnd} (h : n ≤ script.length) :
    scripted script n = script.take n := by
  induction n generalizing script with
  | zero => rfl
  | succ n ih =>
    obtain ⟨e, rest, rfl⟩ := List.exists_cons_of_length_pos (Nat.lt_of_lt_of_le n.succ_pos h)
    cases rest with
    | nil =>
      -- The last entry goes on for good, but there is no run after this one.
      have hn : n = 0 := by simpa using h
      rw [hn]
      rfl
    | cons e' rest =>
      rw [scripted, List.take_succ_cons]
      exact congrArg (e :: ·) (ih (Nat.le_of_succ_le_succ h))

/-- The runs of a tool that can be run end as the script has it. -/
theorem endings_of_script (hnul : holdsNul i = false) (hprogram : i.program ∈ t.installed)
    (h : n ≤ t.script.length) : t.endings i n = t.script.take n := by
  unfold endings
  rw [if_neg (by simp [hnul]), if_neg (not_not_intro hprogram)]
  exact scripted_eq_take h

end Toolbox

namespace PingProbe

/-- The ends of the runs made: up to the first success, if there is one. -/
def tried (ends : List RunEnd) : List RunEnd := ends.take (ends.findIdx (·.succeeded) + 1)

/-- What is noted of runs that ended so, one pause between each two. -/
def trace (p : PingProbe) (address : String) (ends : List RunEnd) : List ToolEvent :=
  (ends.map (.ran (p.invocation address))).intersperse (.paused p.retryDelay)

/-- What a search found and noted, if the runs to come end so. -/
structure Finds (p : PingProbe) (address : String) (log : List ToolEvent) (ends : List RunEnd)
    (found : Bool × Toolbox) : Prop where
  fst_eq : found.1 = ends.any (·.succeeded)
  log_eq : found.2.log = log ++ p.trace address (tried ends)

variable {p : PingProbe} {address : String} {e e' : RunEnd} {rest ends : List RunEnd}
  {t u : Toolbox} {log : List ToolEvent} {found : Bool × Toolbox} {n : Nat}

/-! ## The first run -/

theorem tried_of_succeeded (h : e.succeeded = true) : tried (e :: rest) = [e] := by
  unfold tried
  rw [List.findIdx_cons, h]
  rfl

theorem tried_of_failed (h : e.succeeded = false) : tried (e :: rest) = e :: tried rest := by
  unfold tried
  rw [List.findIdx_cons, h]
  rfl

theorem trace_tried_of_failed (h : e.succeeded = false) :
    p.trace address (tried (e :: e' :: rest)) =
      .ran (p.invocation address) e :: .paused p.retryDelay ::
        p.trace address (tried (e' :: rest)) := by
  rw [tried_of_failed h]
  rfl

theorem Finds.of_succeeded (h : e.succeeded = true)
    (hlog : u.log = log ++ [.ran (p.invocation address) e]) :
    p.Finds address log (e :: rest) (true, u) where
  fst_eq := by rw [List.any_cons, h, Bool.true_or]
  log_eq := by
    rw [tried_of_succeeded h]
    exact hlog

theorem Finds.of_failed_last (h : e.succeeded = false)
    (hlog : u.log = log ++ [.ran (p.invocation address) e]) :
    p.Finds address log [e] (false, u) where
  fst_eq := by rw [List.any_cons, h, List.any_nil, Bool.false_or]
  log_eq := by
    rw [tried_of_failed h]
    exact hlog

/-- Where a run fails that is not the last, the search goes on behind a pause. -/
theorem Finds.of_failed (h : e.succeeded = false)
    (hfinds : p.Finds address (log ++ [.ran (p.invocation address) e] ++ [.paused p.retryDelay])
      (e' :: rest) found) :
    p.Finds address log (e :: e' :: rest) found where
  fst_eq := by rw [List.any_cons, h, Bool.false_or, hfinds.fst_eq]
  log_eq := by
    rw [trace_tried_of_failed h, hfinds.log_eq]
    simp only [List.append_assoc, List.cons_append, List.nil_append]

theorem search_of_succeeded (hrun : t.run (p.invocation address) = (e, u))
    (h : e.succeeded = true) : p.search address (n + 1) t = (true, u) := by
  rw [search, hrun]
  exact if_pos h

theorem search_of_failed_last (hrun : t.run (p.invocation address) = (e, u))
    (h : e.succeeded = false) : p.search address 1 t = (false, u) := by
  rw [search, hrun]
  dsimp only
  rw [h]
  rfl

theorem search_of_failed (hrun : t.run (p.invocation address) = (e, u))
    (h : e.succeeded = false) :
    p.search address (n + 2) t = p.search address (n + 1) (u.pause p.retryDelay) := by
  rw [search, hrun]
  dsimp only
  rw [h]
  rfl

/-! ## All runs -/

theorem search_finds (n : Nat) (t : Toolbox) :
    p.Finds address t.log (t.endings (p.invocation address) (n + 1))
      (p.search address (n + 1) t) := by
  induction n generalizing t with
  | zero =>
    cases hrun : t.run (p.invocation address) with
    | mk e u =>
      rw [Toolbox.endings_of_run hrun, Toolbox.endings_zero]
      have hlog := Toolbox.log_of_run hrun
      cases h : e.succeeded with
      | true => exact search_of_succeeded hrun h ▸ .of_succeeded h hlog
      | false => exact search_of_failed_last hrun h ▸ .of_failed_last h hlog
  | succ n ih =>
    cases hrun : t.run (p.invocation address) with
    | mk e u =>
      rw [Toolbox.endings_of_run hrun]
      have hlog := Toolbox.log_of_run hrun
      cases h : e.succeeded with
      | true => exact search_of_succeeded hrun h ▸ .of_succeeded h hlog
      | false =>
        rw [search_of_failed hrun h, Toolbox.endings_of_run rfl]
        have hfinds := ih (u.pause p.retryDelay)
        rw [Toolbox.log_pause, hlog, Toolbox.endings_pause, Toolbox.endings_of_run rfl] at hfinds
        exact hfinds.of_failed h

theorem any_succeeded_iff : ends.any (·.succeeded) = true ↔
    ∃ o, .finished o ∈ ends ∧ o.status = .success := by
  rw [List.any_eq_true]
  constructor
  · rintro ⟨e, he, hsucceeded⟩
    obtain ⟨o, rfl, ho⟩ := e.succeeded_iff.1 hsucceeded
    exact ⟨o, he, ho⟩
  · rintro ⟨o, he, ho⟩
    exact ⟨_, he, (RunEnd.succeeded_iff _).2 ⟨o, rfl, ho⟩⟩

/-- A probe has as many pings as it has attempts, one at least, and the machine is reachable if one of
them ends with success. It runs them up to the first success, or all of them if there is none, with one
pause between each two runs and none after the last. A run that fails, is given up or cannot be started
counts like any other that is no success, and any ends in any order may come up. -/
theorem probe_ends_at_first_answer (p : PingProbe) (address : String) (tools : Toolbox) :
    let attempts := max 1 p.attempts
    let ping := p.invocation address
    let ends := tools.endings ping attempts
    (∃ reachable ended after,
      p.probe address tools = p.deadline.map (fun _ => (reachable, after)) ∧
      (reachable = true ↔ ∃ o, .finished o ∈ ends ∧ o.status = .success) ∧
      ended <+: ends ∧ ended.length = min (ends.findIdx (·.succeeded) + 1) attempts ∧
      after.log = tools.log ++ (ended.map (.ran ping)).intersperse (.paused p.retryDelay)) ∧
    (Toolbox.holdsNul ping = false → ping.program ∈ tools.installed →
      attempts ≤ tools.script.length → ends = tools.script.take attempts) := by
  intro attempts ping ends
  have hfinds : p.Finds address tools.log ends (p.isReachable address tools) := by
    obtain ⟨n, hn⟩ : ∃ n, max 1 p.attempts = n + 1 := ⟨max 1 p.attempts - 1, by omega⟩
    unfold isReachable ends attempts
    rw [hn]
    exact search_finds n tools
  refine ⟨⟨(p.isReachable address tools).1, tried ends, (p.isReachable address tools).2, ?_, ?_,
    List.take_prefix .., ?_, hfinds.log_eq⟩, Toolbox.endings_of_script⟩
  · unfold probe
    cases p.deadline with
    | ok deadline => rfl
    | error overflow => rfl
  · rw [hfinds.fst_eq]
    exact any_succeeded_iff
  · rw [tried, List.length_take, Toolbox.length_endings]

/-- Of five pings the fourth is answered, after one without answer, one that does not end and one that
cannot be started. -/
theorem probe_ends_at_first_answer_fourth :
    let p : PingProbe := { attempts := 5 }
    let ping := p.invocation "10.0.0.1"
    let ends : List RunEnd := [.finished { status := .code 1 }, .overdue,
      .notStarted Toolbox.missingMessage, .finished {}, .finished { status := .signal 9 }]
    let tools : Toolbox := { installed := ["ping"], script := ends }
    Toolbox.holdsNul ping = false ∧ ping.program ∈ tools.installed ∧ 5 ≤ tools.script.length ∧
    tools.endings ping 5 = ends ∧
    ∃ after, p.probe "10.0.0.1" tools = .ok (true, after) ∧
      after.log = ((ends.take 4).map (.ran ping)).intersperse (.paused (.ofMillis 500)) := by
  intro p ping ends tools
  have hnul : Toolbox.holdsNul ping = false := by decide
  have hprogram : ping.program ∈ tools.installed := by decide
  have hlength : 5 ≤ tools.script.length := by decide
  obtain ⟨⟨reachable, ended, after, hprobe, hreachable, hended, hruns, hlog⟩, hends⟩ :=
    probe_ends_at_first_answer p "10.0.0.1" tools
  have hscript : tools.endings ping (max 1 p.attempts) = ends := hends hnul hprogram hlength
  rw [hscript] at hreachable hended hruns
  have hfound : reachable = true := hreachable.2 ⟨{}, by decide, rfl⟩
  have hfour : ended = ends.take 4 := by
    rw [List.prefix_iff_eq_take.1 hended, hruns]
    rfl
  have hdeadline : p.deadline = .ok (.ofSeconds 3) := by
    rw [deadline, Span.add?_ofSeconds]
    exact if_pos (by decide)
  refine ⟨hnul, hprogram, hlength, hscript, after, ?_, ?_⟩
  · rw [hprobe, hfound, hdeadline]
    rfl
  · rw [hlog, hfour]
    rfl

end PingProbe

end MetalPool
