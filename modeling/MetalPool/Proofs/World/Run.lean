import MetalPool.Proofs.Pool.Requests
import MetalPool.Proofs.Reconcile.Round
/-!
# Runs of the whole controller

`World.after` is the world a list of steps leads to; a theorem about every list
of steps holds at every moment of every run, since each of them is the end of a
prefix. `World.trail` are the stores that one step goes through, one for each
access of a call on the pool.

Statuses are written by reconciliations alone (`step_adapterView`), and a
reconciliation leaves all records but its own as they are (`reconcile_get_of_ne`).
-/

namespace MetalPool

/-- The controller, the pool's clients or the machines do this: nobody puts a record in or writes
a status from outside. -/
def Step.Operational : Step → Prop
  | .insert _ | .updateStatus .. => False
  | _ => True

/-- The step is no reconciliation, and nobody puts a record in or writes a status from outside. -/
def Step.SparesStatus : Step → Prop
  | .reconcile .. | .insert _ | .updateStatus .. => False
  | _ => True

theorem Step.Operational.cases {s : Step} (h : s.Operational) :
    (∃ name now, s = .reconcile name now) ∨ s.SparesStatus := by
  cases s with
  | reconcile name now => exact .inl ⟨name, now, rfl⟩
  | insert | updateStatus => cases h
  | _ => exact .inr trivial

namespace World

variable {w : World} {name : String} {server : Server} {now : Timestamp}

/-! ## Runs -/

/-- The world after the steps, done in order. -/
def after (w : World) (steps : List Step) : World := steps.foldl (fun w s => (w.step s).2) w

@[simp] theorem after_nil (w : World) : w.after [] = w := rfl

@[simp] theorem after_cons (w : World) (s : Step) (steps : List Step) :
    w.after (s :: steps) = (w.step s).2.after steps := rfl

@[simp] theorem after_append (w : World) (steps rest : List Step) :
    w.after (steps ++ rest) = (w.after steps).after rest :=
  List.foldl_append

/-- What holds at the start and is kept by every step of the run holds at its end. -/
theorem after_inv {I : World → Prop} {p : Step → Prop} (hstep : ∀ w s, I w → p s → I (w.step s).2)
    {steps : List Step} (hs : ∀ s ∈ steps, p s) (h : I w) : I (w.after steps) := by
  induction steps generalizing w with
  | nil => exact h
  | cons s rest ih =>
    exact ih (fun t ht => hs t (List.mem_cons_of_mem _ ht)) (hstep w s h (hs s List.mem_cons_self))

/-- Each step of the run satisfies `p` in the world in which it is done. -/
def Along (p : World → Step → Prop) (w : World) : List Step → Prop
  | [] => True
  | s :: rest => p w s ∧ (w.step s).2.Along p rest

theorem along_append {p : World → Step → Prop} {steps rest : List Step} :
    w.Along p (steps ++ rest) ↔ w.Along p steps ∧ (w.after steps).Along p rest := by
  induction steps generalizing w with
  | nil => exact (and_iff_right trivial).symm
  | cons s steps ih => simp only [List.cons_append, Along, after_cons, ih, and_assoc]

/-- The stores that a step goes through, the last of them the one it leaves behind. -/
def trail (w : World) : Step → List Store
  | .pool call => call.session.run.trail Store.serve w.store
  | .rpc method request => (Pool.serve method request).trail Store.serve w.store
  | .rpcBytes writer target request => (Pool.serveBytes writer target request).trail Store.serve w.store
  | s => [(w.step s).2.store]

theorem step_store_eq_getLast (w : World) (s : Step) :
    (w.step s).2.store = (w.store :: w.trail s).getLast (by simp) := by
  cases s with
  | pool call => exact Session.hold_eq_getLast ..
  | rpc method request => exact Session.hold_eq_getLast ..
  | rpcBytes writer target request => exact Session.hold_eq_getLast ..
  | _ => rfl

theorem step_store_mem (w : World) (s : Step) :
    (w.step s).2.store = w.store ∨ (w.step s).2.store ∈ w.trail s := by
  rw [step_store_eq_getLast]
  exact List.mem_cons.1 (List.getLast_mem (List.cons_ne_nil w.store (w.trail s)))

/-! ## What a step leaves alone -/

theorem trail_adapterView {s : Step} (h : s.SparesStatus) :
    ∀ store ∈ w.trail s, store.adapterView = w.store.adapterView := by
  have hsame : ∀ store ∈ [w.store], store.adapterView = w.store.adapterView := by
    intro store hs
    rw [List.mem_singleton.1 hs]
  cases s with
  | reconcile | insert | updateStatus => cases h
  | pool call =>
    exact Session.trail_keeps _ (fun r s hr => Store.serve_adapterView r s hr)
      (Pool.spares_session call) _
  | rpc method request =>
    exact Session.trail_keeps _ (fun r s hr => Store.serve_adapterView r s hr)
      (Pool.serve_spares method request) _
  | rpcBytes writer target request =>
    exact Session.trail_keeps _ (fun r s hr => Store.serve_adapterView r s hr)
      (Pool.serveBytes_spares writer target request) _
  | updatePowerState n version state =>
    intro store hs
    rw [List.mem_singleton.1 hs]
    exact Store.serve_adapterView (.updatePowerState n version state) w.store trivial
  | conflictNext n =>
    intro store hs
    rw [List.mem_singleton.1 hs]
    rfl
  | _ => exact hsame

theorem step_adapterView {s : Step} (h : s.SparesStatus) :
    (w.step s).2.store.adapterView = w.store.adapterView := by
  rcases step_store_mem w s with he | hm
  · rw [he]
  · exact trail_adapterView h _ hm

theorem step_settings (w : World) (s : Step) : (w.step s).2.settings = w.settings := by
  cases s with
  | reconcile n now => exact reconcile_settings w n now.onClock
  | _ => rfl

theorem step_threshold (w : World) (s : Step) : (w.step s).2.threshold = w.threshold :=
  congrArg Prod.fst (step_settings w s)

theorem after_settings (w : World) (steps : List Step) : (w.after steps).settings = w.settings := by
  induction steps generalizing w with
  | nil => rfl
  | cons s rest ih => exact (ih _).trans (step_settings w s)

/-! ## The record of a reconciliation -/

theorem Persists.get_of_ne {r : Round} {result : Reconciled} {store : Store}
    (h : w.Persists name server r result store) {n : String} (hn : n ≠ name) :
    store.get n = w.store.get n := by
  cases h with
  | unchanged => rfl
  | conflict => rfl
  | stored => rw [Store.get_commit, if_neg hn]

/-- The record is left alone, or it has the new status that the round ends with. -/
theorem Persists.get_self {r : Round} {result : Reconciled} {store : Store}
    (h : w.Persists name server r result store) (hg : w.store.get name = some server) :
    store.get name = some server ∨
      (r.status ≠ server.statusOrDefault ∧ result = r.result ∧
        store.get name = some ((server.withStatus r.status).withVersion w.store.nextVersion)) := by
  cases h with
  | unchanged => exact .inl hg
  | conflict => exact .inl hg
  | stored hs => exact .inr ⟨hs, rfl, by rw [Store.get_commit, if_pos rfl]⟩

/-- A reconciliation of `server`, the record called `name`, ends as its round does: with the result of
the round, and with its status stored if that is a new one. -/
structure Concludes (w : World) (name : String) (server : Server) (now : Timestamp) (r : Round) :
    Prop where
  result_eq : (w.reconcile name now).1 = r.result
  store_eq : (w.reconcile name now).2.store =
    if r.status = server.statusOrDefault then w.store
    else w.store.commit name (server.withStatus r.status)
  found : ∃ new, (w.reconcile name now).2.store.get name = some new ∧ new.spec = server.spec ∧
    new.statusOrDefault = r.status

/-- What a reconciliation of an existing record comes to, in two cases. -/
theorem reconcile_cases (hg : w.store.get name = some server) (now : Timestamp) :
    ∃ r, w.Decides name server now r ∧ (w.reconcile name now).2.plant = (w.carry r).plant ∧
      -- The store refuses the status, and every record is as it was.
      (((w.reconcile name now).1 = .error (.store (.conflict name)) ∧
          (w.reconcile name now).2.store = w.store.spend name) ∨
        w.Concludes name server now r) := by
  obtain ⟨r, hd, hs, hp⟩ := reconcile_of_get hg now
  refine ⟨r, hd, hp, ?_⟩
  generalize hresult : (w.reconcile name now).1 = result at hs
  generalize hstore : (w.reconcile name now).2.store = store at hs
  cases hs with
  | unchanged he =>
    exact .inr ⟨hresult, by rw [hstore, if_pos he], server, by rw [hstore, hg], rfl, he.symm⟩
  | conflict => exact .inl ⟨rfl, rfl⟩
  | stored hne =>
    refine .inr ⟨hresult, by rw [hstore, if_neg hne],
      (server.withStatus r.status).withVersion w.store.nextVersion, ?_, rfl, rfl⟩
    rw [hstore, Store.get_commit, if_pos rfl]

/-- The store does not refuse the status that a reconciliation writes, if it writes one. -/
def Accepted (w : World) (name : String) (now : Timestamp) : Prop :=
  ∀ e, (w.reconcile name now).1 ≠ .error (.store e)

theorem Accepted.of_ok (h : (w.reconcile name now).1.isOk) : w.Accepted name now := by
  intro e he
  rw [he] at h
  cases h

theorem Accepted.round (h : w.Accepted name now) (hg : w.store.get name = some server) :
    ∃ r, w.Decides name server now r ∧ (w.reconcile name now).2.plant = (w.carry r).plant ∧
      w.Concludes name server now r := by
  obtain ⟨r, hd, hp, ⟨hr, -⟩ | hc⟩ := reconcile_cases hg now
  · exact absurd hr (h _)
  · exact ⟨r, hd, hp, hc⟩

theorem reconcile_get_of_ne {n : String} (hn : n ≠ name) (now : Timestamp) :
    (w.reconcile name now).2.store.get n = w.store.get n := by
  cases hg : w.store.get name with
  | none => rw [reconcile_of_none hg]
  | some server =>
    obtain ⟨r, -, hs, -⟩ := reconcile_of_get hg now
    exact hs.get_of_ne hn

end World

/-! ## A machine to look at -/

/-- A record of a machine that is woken over the network, and not desired on yet. -/
def Server.asleep : Server where
  metadata := { name := some "m1" }
  spec :=
    { controlType := some .wol
      control := { wol := some { address := "10.0.0.1", macAddress := "aa:bb:cc:dd:ee:ff" } } }

def Timestamp.noon : Timestamp := ⟨⟨2024, 5, 1, by decide, by decide⟩, 43200, 0, by decide, by decide⟩

end MetalPool
