import MetalPool.Proofs.Reconcile.Round
/-!
# The course of a reconciliation

A reconciliation deals with its surroundings one deed at a time: it asks the
store, probes the machine, commands it, and goes on with each answer. A `Course`
is such a chain of deeds, apart from the world that answers; taken through a
world, whatever its backends are, that of a reconciliation is the reconciliation
itself (`run_reconcile`).

Whatever the answers are, the status is written last, at most once, and only if
it is not the one that was read (`deeds_reconcile`).
-/

namespace MetalPool

inductive Deed where
  | ask (request : StoreRequest)
  | probe (address : String)
  | command (command : PowerCommand)

/-- What a deed is answered. -/
def Deed.Answer : Deed → Type
  | .ask r => Except StoreError r.Answer
  | .probe _ => Bool
  | .command _ => Except PowerError Unit

/-- Deeds that end with a value, each chosen after the answers to those before. -/
inductive Course (α : Type) where
  | done (value : α)
  | go (deed : Deed) (next : deed.Answer → Course α)

/-- The answer to a deed, and the world after it. -/
def World.perform {σ : Type} [Backends σ] (w : World σ) : (d : Deed) → d.Answer × World σ
  | .ask r => ((Store.serve r w.store).1, { w with store := (Store.serve r w.store).2 })
  | .probe address => w.probe address
  | .command c => ((Backends.execute w.plant c).1, (w.execute c).2)

namespace Course

variable {α σ : Type} [Backends σ]

/-- Goes through a world. -/
def run : Course α → World σ → α × World σ
  | .done a, w => (a, w)
  | .go d next, w => (next (w.perform d).1).run (w.perform d).2

/-- The deeds done on the way through a world, in order. -/
def deeds : Course α → World σ → List Deed
  | .done _, _ => []
  | .go d next, w => d :: (next (w.perform d).1).deeds (w.perform d).2

/-- Ends with `result`, unless the store refused the status. -/
def afterWrite (result : Reconciled) : Except StoreError Unit → Course Reconciled
  | .ok _ => .done result
  | .error e => .done (.error (.store e))

/-- Writes the status, unless it is the one read, and ends with `result`. -/
def conclude (name : String) (server : Server) (status : ServerStatus) (result : Reconciled) :
    Course Reconciled :=
  if status = server.statusOrDefault then .done result
  else .go (.ask (.updateStatus name server.version? status)) (afterWrite result)

/-- Notes what an action came to. -/
def afterAction (requeue : Span) (name : String) (server : Server) (status : ServerStatus)
    (result : Except ActionError Unit) : Course Reconciled :=
  conclude name server (status.applyAction server.spec.desired result)
    (match result with
      | .ok _ => .ok (some requeue)
      | .error e => .error (.powerAction e))

/-- Tries to take the machine to its desired state. -/
def act (requeue : Span) (name : String) (server : Server) (status : ServerStatus) :
    Course Reconciled :=
  match server.spec.plan server.spec.desired with
  | .error e => afterAction requeue name server status (.error (.config e.message))
  | .ok command =>
    .go (.command command) fun (answer : Except PowerError Unit) =>
      afterAction requeue name server status (answer.mapError .power)

/-- Acts where the machine was seen to be not as desired. -/
def afterProbe (requeue : Span) (name : String) (server : Server) :
    Observation × ServerStatus → Course Reconciled
  | (.settled, status) => conclude name server status (.ok none)
  | (.waiting, status) => conclude name server status (.ok (some requeue))
  | (.observed, status) =>
    if status.current = server.spec.desired then conclude name server status (.ok none)
    else act requeue name server status

/-- Goes on with the record that was read, if there is one. -/
def afterRead (threshold : UInt32) (requeue : Span) (name : String) (now : Timestamp) :
    Except StoreError (Option Server) → Course Reconciled
  | .error e => .done (.error (.store e))
  | .ok none => .done (.ok none)
  | .ok (some server) =>
    match server.statusOrDefault.precheck server.spec threshold with
    | .skip => .done (.ok none)
    | .frozen status => conclude name server status (.ok none)
    | .missingAddress status =>
      conclude name server status (.error (.invalidConfig (World.noAddressMessage name)))
    | .proceed address =>
      .go (.probe address) fun (reachable : Bool) =>
        afterProbe requeue name server (server.statusOrDefault.observe reachable now)

/-- The course of a reconciliation, under the two settings of a controller. -/
def reconcile (threshold : UInt32) (requeue : Span) (name : String) (now : Timestamp) :
    Course Reconciled :=
  .go (.ask (.get name)) (afterRead threshold requeue name now)

end Course

namespace World

variable {σ : Type} [Backends σ] {name : String} {server : Server}

/-- The deeds of a reconciliation. -/
def deeds (w : World σ) (name : String) (now : Timestamp) : List Deed :=
  (Course.reconcile w.threshold w.requeue name now).deeds w

/-! ## The same reconciliation -/

theorem run_conclude (w : World σ) (name : String) (server : Server) (status : ServerStatus)
    (result : Reconciled) :
    (Course.conclude name server status result).run w =
      w.conclude name server.version? server.statusOrDefault status result := by
  unfold Course.conclude conclude persist
  by_cases hs : status = server.statusOrDefault
  · simp [hs, Course.run]
  · simp only [hs, if_false, Course.run, perform, Store.serve]
    cases (w.store.updateStatus name server.version? status).1 <;> rfl

theorem run_act (w : World σ) (name : String) (server : Server) (status : ServerStatus) :
    (Course.act w.requeue name server status).run w =
      let acted := w.act server.spec server.spec.desired
      acted.2.conclude name server.version? server.statusOrDefault
        (status.applyAction server.spec.desired acted.1)
        (match acted.1 with
          | .ok _ => .ok (some acted.2.requeue)
          | .error e => .error (.powerAction e)) := by
  unfold Course.act act
  cases server.spec.plan server.spec.desired with
  | error e => exact run_conclude ..
  | ok command => exact run_conclude ..

theorem run_afterProbe (w : World σ) (name : String) (server : Server) (address : String)
    (now : Timestamp) :
    (Course.afterProbe w.requeue name server
        (server.statusOrDefault.observe (w.probe address).1 now)).run (w.probe address).2 =
      w.reconcileMachine name server address now := by
  unfold reconcileMachine
  simp only []
  generalize server.statusOrDefault.observe (w.probe address).1 now = observed
  obtain ⟨observation, status⟩ := observed
  cases observation with
  | settled | waiting => exact run_conclude ..
  | observed =>
    by_cases hd : status.current = server.spec.desired
    · simp only [Course.afterProbe, hd, if_true, run_conclude]
    · simp only [Course.afterProbe, hd, if_false]
      exact run_act (w.probe address).2 name server status

/-- Taken through a world, the course of a reconciliation does what the reconciliation does. -/
theorem run_reconcile (w : World σ) (name : String) (now : Timestamp) :
    (Course.reconcile w.threshold w.requeue name now).run w = w.reconcileRecord name now := by
  have hread : (Course.reconcile w.threshold w.requeue name now).run w =
      (Course.afterRead w.threshold w.requeue name now (.ok (w.store.get name))).run w := rfl
  rw [hread]
  unfold reconcileRecord
  cases w.store.get name with
  | none => rfl
  | some server =>
    simp only [Course.afterRead]
    cases server.statusOrDefault.precheck server.spec w.threshold with
    | skip => rfl
    | frozen | missingAddress => exact run_conclude ..
    | proceed address => exact run_afterProbe w name server address now

/-! ## The order of its deeds -/

/-- The deed writes a status to `server`, the record called `name`, that it does not have. -/
def Renews (name : String) (server : Server) (d : Deed) : Prop :=
  ∃ status, status ≠ server.statusOrDefault ∧ d = .ask (.updateStatus name server.version? status)

/-- What a course may do once it probed the machine: command it, and then write a new status. -/
def EndsWell (name : String) (server : Server) (deeds : List Deed) : Prop :=
  ∃ (command : Option PowerCommand) (written : Option Deed),
    deeds = command.toList.map .command ++ written.toList ∧ ∀ d ∈ written, Renews name server d

theorem deeds_conclude (w : World σ) (name : String) (server : Server) (status : ServerStatus)
    (result : Reconciled) :
    ∃ written : Option Deed, (Course.conclude name server status result).deeds w = written.toList ∧
      ∀ d ∈ written, Renews name server d := by
  unfold Course.conclude
  by_cases hs : status = server.statusOrDefault
  · exact ⟨none, by simp [hs, Course.deeds], by simp⟩
  · refine ⟨some (.ask (.updateStatus name server.version? status)), ?_, ?_⟩
    · have hend (answer : Except StoreError Unit) (v : World σ) :
          (Course.afterWrite result answer).deeds v = [] := by
        cases answer <;> rfl
      simp only [hs, if_false, Course.deeds, Option.toList_some]
      exact congrArg _ (hend _ _)
    · intro d hd
      cases hd
      exact ⟨status, hs, rfl⟩

theorem endsWell_conclude (w : World σ) (name : String) (server : Server) (status : ServerStatus)
    (result : Reconciled) :
    EndsWell name server ((Course.conclude name server status result).deeds w) := by
  obtain ⟨written, hdeeds, hw⟩ := deeds_conclude w name server status result
  exact ⟨none, written, hdeeds, hw⟩

theorem endsWell_act (w : World σ) (requeue : Span) (name : String) (server : Server)
    (status : ServerStatus) :
    EndsWell name server ((Course.act requeue name server status).deeds w) := by
  unfold Course.act
  cases server.spec.plan server.spec.desired with
  | error e => exact endsWell_conclude ..
  | ok command =>
    simp only [Course.deeds, Course.afterAction]
    obtain ⟨written, hdeeds, hw⟩ := deeds_conclude (w.perform (.command command)).2 name server _ _
    exact ⟨some command, written, congrArg _ hdeeds, hw⟩

theorem endsWell_afterProbe (w : World σ) (requeue : Span) (name : String) (server : Server)
    (observed : Observation × ServerStatus) :
    EndsWell name server ((Course.afterProbe requeue name server observed).deeds w) := by
  obtain ⟨observation, status⟩ := observed
  cases observation with
  | settled | waiting => exact endsWell_conclude ..
  | observed =>
    simp only [Course.afterProbe]
    split
    · exact endsWell_conclude ..
    · exact endsWell_act ..

/-- A reconciliation reads the record; then it may probe the machine, command it and write a new status,
in this order. -/
theorem deeds_reconcile (w : World σ) (name : String) (now : Timestamp) :
    ∃ (probed : Option String) (command : Option PowerCommand) (written : Option Deed),
      w.deeds name now =
        .ask (.get name) ::
          (probed.toList.map .probe ++ command.toList.map .command ++ written.toList) ∧
      ∀ d ∈ written, ∃ server, w.store.get name = some server ∧ Renews name server d := by
  have hread : w.deeds name now = .ask (.get name) ::
      (Course.afterRead w.threshold w.requeue name now (.ok (w.store.get name))).deeds w := rfl
  rw [hread]
  cases w.store.get name with
  | none => exact ⟨none, none, none, rfl, by simp⟩
  | some server =>
    simp only [Course.afterRead]
    cases server.statusOrDefault.precheck server.spec w.threshold with
    | skip => exact ⟨none, none, none, rfl, by simp⟩
    | frozen | missingAddress =>
      obtain ⟨written, hdeeds, hw⟩ := deeds_conclude w name server _ _
      exact ⟨none, none, written, congrArg _ hdeeds, fun d hd => ⟨server, rfl, hw d hd⟩⟩
    | proceed address =>
      obtain ⟨command, written, hdeeds, hw⟩ := endsWell_afterProbe (w.probe address).2 w.requeue name
        server (server.statusOrDefault.observe (w.probe address).1 now)
      refine ⟨some address, command, written, ?_, fun d hd => ⟨server, rfl, hw d hd⟩⟩
      exact congrArg (fun rest => .ask (.get name) :: .probe address :: rest) hdeeds

end World

end MetalPool
