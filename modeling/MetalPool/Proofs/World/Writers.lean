import MetalPool.Proofs.Reconcile.Course
import MetalPool.Proofs.Store.Origin
import MetalPool.Proofs.World.Run
/-!
# Who writes what

The controller and the pool's clients share the records, and each party writes a
part of its own: reconciliations write statuses, calls on the pool desired
states. `World.history` lists what a run does to the store, each event with the
step that does it, and `Step.Authors` says which steps may do which events.

So every record found after a run is one that was put in, with the last status
and the last desired state that its party stored since (`parties_write_apart`).
-/

namespace MetalPool

deriving instance DecidableEq for StoreEvent

/-- The step is a call on the pool, from within the process or remote. -/
def Step.IsCall : Step → Prop
  | .pool _ | .rpc .. | .rpcBytes .. => True
  | _ => False

/-- The step may leave the event under `name`: statuses come from reconciliations of the record and
desired states from calls on the pool, unless the step is that very write. -/
def Step.Authors (s : Step) (name : String) : StoreEvent → Prop
  | .insert server => s = .insert server
  | .request (.updateStatus n version status) =>
    (∃ now, s = .reconcile name now) ∨ (n = name ∧ s = .updateStatus n version status)
  | .request (.updatePowerState n version state) =>
    s.IsCall ∨ (n = name ∧ s = .updatePowerState n version state)
  | _ => False

/-- All of a record that a status write leaves alone. -/
def Server.engineView (s : Server) : Server :=
  { s with metadata := { s.metadata with resourceVersion := none }, status := none }

/-- What is left of the records without statuses and versions, by name. -/
def Store.engineView (s : Store) (name : String) : Option Server := (s.get name).map Server.engineView

/-! ## Requests, one after the other -/

namespace Session

variable {α : Type} {p : StoreRequest → Prop}

/-- The requests of a session held with records in memory, in order. -/
def requests : Session α → Store → List StoreRequest
  | .done _, _ => []
  | .ask r next, s => r :: (next (Store.serve r s).1).requests (Store.serve r s).2

theorem run_store (session : Session α) (s : Store) :
    (session.run s).2 = s.after ((session.requests s).map .request) := by
  induction session generalizing s with
  | done a => rfl
  | ask r next ih => exact ih (Store.serve r s).1 (Store.serve r s).2

theorem Asks.requests {session : Session α} (h : session.Asks p) (s : Store) :
    ∀ r ∈ session.requests s, p r := by
  induction session generalizing s with
  | done a => simp [Session.requests]
  | ask r next ih =>
    intro r' hr
    rcases List.mem_cons.1 hr with rfl | hr
    · exact h.1
    · exact ih _ (h.2 _) _ r' hr

end Session

/-- What a deed does to the store. -/
def Deed.event? : Deed → Option StoreEvent
  | .ask r => some (.request r)
  | _ => none

theorem Course.run_store {α : Type} (c : Course α) (w : World) :
    (c.run w).2.store = w.store.after ((c.deeds w).filterMap Deed.event?) := by
  induction c generalizing w with
  | done a => rfl
  | go d next ih =>
    simp only [run, deeds, ih]
    cases d <;> rfl

namespace World

variable {w : World} {s : Step} {name : String}

/-- What a step does to the store, in order. -/
def events (w : World) : Step → List StoreEvent
  | .reconcile name now => (w.deeds name now.onClock).filterMap Deed.event?
  | .conflictNext name => [.conflictNext name]
  | .insert server => [.insert server]
  | .get name => [.request (.get name)]
  | .list => [.request .list]
  | .updatePowerState name version state => [.request (.updatePowerState name version state)]
  | .updateStatus name version status => [.request (.updateStatus name version status)]
  | .pool call => (call.session.run.requests w.store).map .request
  | .rpc method request => ((Pool.serve method request).requests w.store).map .request
  | .rpcBytes writer target request => ((Pool.serveBytes writer target request).requests w.store).map .request
  | _ => []

/-- What the steps do to the store, each event with the step that does it. -/
def history (w : World) : List Step → List (Step × StoreEvent)
  | [] => []
  | s :: rest => (w.events s).map (s, ·) ++ (w.step s).2.history rest

theorem step_store (w : World) (s : Step) : (w.step s).2.store = w.store.after (w.events s) := by
  cases s with
  | reconcile name now =>
    have hrun := Course.run_store (Course.reconcile w.threshold w.requeue name now.onClock) w
    rw [run_reconcile] at hrun
    exact hrun
  | pool call => exact Session.run_store ..
  | rpc method request => exact Session.run_store ..
  | rpcBytes writer target request => exact Session.run_store ..
  | _ => rfl

theorem after_store (w : World) (steps : List Step) :
    (w.after steps).store = w.store.after ((w.history steps).map Prod.snd) := by
  induction steps generalizing w with
  | nil => rfl
  | cons s rest ih =>
    have hevents : ((w.events s).map (s, ·)).map Prod.snd = w.events s := by
      simp [Function.comp_def]
    rw [after_cons, ih, step_store, history, List.map_append, Store.after_append, hevents]

theorem events_of_mem_history {steps : List Step} {e : Step × StoreEvent}
    (he : e ∈ w.history steps) : ∃ v : World, e.2 ∈ v.events e.1 := by
  induction steps generalizing w with
  | nil => simp [history] at he
  | cons s rest ih =>
    rcases List.mem_append.1 he with he | he
    · obtain ⟨event, hevent, rfl⟩ := List.mem_map.1 he
      exact ⟨w, hevent⟩
    · exact ih he

end World

theorem Store.mem_of_mem_under {τ : Type} {s : Store} {name : String} {events : List (τ × StoreEvent)}
    {e : τ × StoreEvent} (he : e ∈ s.under name events) :
    e ∈ events ∧ ∃ v : Store, v.touched? e.2 = some name := by
  induction events generalizing s with
  | nil => simp [under] at he
  | cons first rest ih =>
    unfold under at he
    by_cases ht : s.touched? first.2 = some name
    · rw [if_pos ht] at he
      rcases List.mem_cons.1 he with rfl | he
      · exact ⟨List.mem_cons_self, s, ht⟩
      · obtain ⟨hm, hv⟩ := ih he
        exact ⟨List.mem_cons_of_mem _ hm, hv⟩
    · rw [if_neg ht] at he
      obtain ⟨hm, hv⟩ := ih he
      exact ⟨List.mem_cons_of_mem _ hm, hv⟩

/-- Only a request that names a record to write to leaves something there. -/
theorem Store.target_of_touched {s : Store} {r : StoreRequest} {name : String}
    (h : s.touched? (.request r) = some name) : r.target? = some name := by
  have h' : (if (serve r s).1.isOk then r.target? else none) = some name := h
  split at h'
  · exact h'
  · cases h'

/-! ## Authors -/

namespace World

variable {w : World} {s : Step} {name : String}

theorem authors_of_call {r : StoreRequest} (hc : s.IsCall) (hr : r.SparesStatus)
    (ht : r.target? = some name) : s.Authors name (.request r) := by
  cases r with
  | get | list => cases ht
  | updatePowerState => exact .inl hc
  | updateStatus => cases hr

theorem authors_of_event {v : Store} {e : StoreEvent} (he : e ∈ w.events s)
    (ht : v.touched? e = some name) : s.Authors name e := by
  have hcall {requests : List StoreRequest} (hc : s.IsCall)
      (hr : ∀ r ∈ requests, r.SparesStatus) (he : e ∈ requests.map .request) : s.Authors name e := by
    obtain ⟨r, hm, rfl⟩ := List.mem_map.1 he
    exact authors_of_call hc (hr r hm) (Store.target_of_touched ht)
  cases s with
  | reconcile n now =>
    obtain ⟨probed, command, written, hdeeds, hw⟩ := deeds_reconcile w n now.onClock
    simp only [events, hdeeds, List.mem_filterMap, List.mem_cons, List.mem_append, List.mem_map,
      Option.mem_toList] at he
    obtain ⟨d, rfl | (⟨a, -, rfl⟩ | ⟨c, -, rfl⟩) | hd, hevent⟩ := he
    · cases hevent
      cases Store.target_of_touched ht
    · cases hevent
    · cases hevent
    · obtain ⟨server, -, status, -, rfl⟩ := hw d hd
      cases hevent
      cases Store.target_of_touched ht
      exact .inl ⟨now, rfl⟩
  | pool call => exact hcall trivial ((Pool.spares_session call).requests w.store) he
  | rpc method request => exact hcall trivial ((Pool.serve_spares method request).requests w.store) he
  | rpcBytes writer target request =>
    exact hcall trivial ((Pool.serveBytes_spares writer target request).requests w.store) he
  | insert server => cases List.mem_singleton.1 he; rfl
  | conflictNext n => cases List.mem_singleton.1 he; cases ht
  | get n | list =>
    cases List.mem_singleton.1 he
    cases Store.target_of_touched ht
  | updatePowerState n version state | updateStatus n version status =>
    cases List.mem_singleton.1 he
    cases Store.target_of_touched ht
    exact .inr ⟨rfl, rfl⟩
  | _ => cases he

theorem authors_of_under {steps : List Step} {e : Step × StoreEvent}
    (he : e ∈ w.store.under name (w.history steps)) : e.1.Authors name e.2 := by
  obtain ⟨hm, v, ht⟩ := Store.mem_of_mem_under he
  obtain ⟨v', hevents⟩ := events_of_mem_history hm
  exact authors_of_event hevents ht

/-! ## One reconciliation, one call -/

theorem reconcile_engineView (w : World) (name : String) (now : Timestamp) :
    (w.reconcile name now).2.store.engineView = w.store.engineView := by
  funext n
  unfold Store.engineView
  by_cases hn : n = name
  · subst hn
    cases hg : w.store.get n with
    | none => rw [reconcile_of_none hg, hg]
    | some server =>
      obtain ⟨r, -, hs, -⟩ := reconcile_of_get hg now
      rcases hs.get_self hg with hg' | ⟨-, -, hg'⟩
      · rw [hg']
      · rw [hg']
        rfl
  · rw [reconcile_get_of_ne hn]

theorem reconcile_writes_le (w : World) (name : String) (now : Timestamp) :
    (w.reconcile name now).2.store.writes ≤ w.store.writes + 1 := by
  cases hg : w.store.get name with
  | none => simp [reconcile_of_none hg]
  | some server =>
    obtain ⟨r, -, hs, -⟩ := reconcile_of_get hg now
    generalize (w.reconcile name now).1 = result at hs
    generalize (w.reconcile name now).2.store = store at hs ⊢
    cases hs with
    | unchanged => exact Nat.le_succ _
    | conflict => exact Nat.le_succ _
    | stored => exact Nat.le_refl _

theorem call_trail_adapterView (hc : s.IsCall) :
    ∀ store ∈ w.trail s, store.adapterView = w.store.adapterView := by
  apply trail_adapterView
  cases s with
  | pool | rpc | rpcBytes => trivial
  | _ => cases hc

theorem call_plant (hc : s.IsCall) : (w.step s).2.plant = w.plant := by
  cases s with
  | pool | rpc | rpcBytes => rfl
  | _ => cases hc

/-! ## Main theorem -/

/-- Two parties share the records, and each writes a part of its own:
* a reconciliation changes at most the status and the version of its record. It reads the record, may
  then probe and command the machine, and last of all may write a status, if that is not the one read;
* a call on the pool changes at most desired states and versions, with each of its accesses, and leaves
  the machines alone;
* so a record found after a run is one that was put in, as it was then but for the last status and the
  last desired state stored since: statuses by reconciliations of it and desired states by calls on
  the pool, or by a step that is nothing but this write. -/
theorem parties_write_apart (w : World) :
    (∀ (name : String) (now : Timestamp),
      let after := (w.reconcile name now).2
      (∀ n, n ≠ name → after.store.get n = w.store.get n) ∧
      after.store.engineView = w.store.engineView ∧
      after.store.writes ≤ w.store.writes + 1 ∧
      (Course.reconcile w.threshold w.requeue name now).run w = w.reconcileRecord name now ∧
      ∃ (probed : Option String) (command : Option PowerCommand) (written : Option Deed),
        w.deeds name now =
          .ask (.get name) ::
            (probed.toList.map .probe ++ command.toList.map .command ++ written.toList) ∧
        ∀ d ∈ written, ∃ server, w.store.get name = some server ∧ Renews name server d) ∧
    (∀ s : Step, s.IsCall →
      (∀ store ∈ w.trail s, store.adapterView = w.store.adapterView) ∧
      (w.step s).2.plant = w.plant) ∧
    ∀ (steps : List Step) (name : String) (server : Server),
      (w.after steps).store.get name = some server →
      ∃ origin writes, w.store.Descends name (w.history steps) origin writes ∧
        server.StemsFrom origin (writes.map Prod.snd) ∧
        ∀ e ∈ w.store.under name (w.history steps), e.1.Authors name e.2 := by
  refine ⟨fun name now => ⟨?_, ?_, ?_, ?_, ?_⟩, fun s hc => ⟨?_, ?_⟩, ?_⟩
  · intro n hn
    exact reconcile_get_of_ne hn now
  · exact reconcile_engineView w name now
  · exact reconcile_writes_le w name now
  · exact run_reconcile w name now
  · exact deeds_reconcile w name now
  · exact call_trail_adapterView hc
  · exact call_plant hc
  · intro steps name server hg
    rw [after_store] at hg
    obtain ⟨origin, writes, hdescends, hstems⟩ := Store.get_after_stems w.store (w.history steps) hg
    exact ⟨origin, writes, hdescends, hstems, fun e he => authors_of_under he⟩

/-- A machine is turned on, reconciled, reconciled again while the store refuses writes, and given back
together with a machine that nobody knows: of all this its record shows the two desired states and the
one status that were written. -/
theorem parties_write_apart_asleep :
    let w := start [.asleep] [] 3 (.ofSeconds 60)
    let giveBack : Step := .pool (.deleteNodes Pool.groupId [{ name := "m1" }, { name := "m2" }])
    let steps : List Step :=
      [.pool (.increaseSize Pool.groupId 1), .reconcile "m1" .noon, .conflictNext "m1",
        .setReachable "10.0.0.1" true, .reconcile "m1" .noon, giveBack]
    let server := ((Server.asleep.withPowerState .off).withStatus { phase := some .pending }).withVersion "4"
    (w.after steps).store.get "m1" = some server ∧
      (∃ origin writes, w.store.Descends "m1" (w.history steps) origin writes ∧
        server.StemsFrom origin (writes.map Prod.snd) ∧
        ∀ e ∈ w.store.under "m1" (w.history steps), e.1.Authors "m1" e.2) ∧
      (w.store.under "m1" (w.history steps)).map Prod.snd =
        [.request (.updatePowerState "m1" (some "1") .on),
          .request (.updateStatus "m1" (some "2") { phase := some .pending }),
          .request (.updatePowerState "m1" (some "3") .off)] ∧
      ((w.after steps).step giveBack).2.plant = (w.after steps).plant := by
  intro w giveBack steps server
  have hg : (w.after steps).store.get "m1" = some server := by decide +kernel
  have hcall : giveBack.IsCall := trivial
  obtain ⟨-, hcalls, hruns⟩ := parties_write_apart w
  exact ⟨hg, hruns steps "m1" server hg, by decide +kernel,
    ((parties_write_apart (w.after steps)).2.1 giveBack hcall).2⟩

end World

end MetalPool
