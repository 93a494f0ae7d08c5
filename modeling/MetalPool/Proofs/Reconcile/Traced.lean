import MetalPool.Proofs.Reconcile.Course
/-!
# Calls to backends, noted in full

What backends are called with is seen by backends that note each call, all that is
passed in it, and otherwise do what others do. To note the calls changes nothing of
a reconciliation, and the calls it makes are those of its deeds (`reconcile_traced`).
-/

namespace MetalPool

/-- A call to backends, with all that is passed in it. -/
inductive BackendCall where
  | probe (address : String)
  | command (command : PowerCommand)

/-- Backends that note the calls they get. -/
structure Traced (σ : Type) where
  backends : σ
  calls : List BackendCall

namespace Traced

variable {σ α : Type}

/-- The answer to a call, with the call noted. -/
def note (t : Traced σ) (call : BackendCall) (answer : α × σ) : α × Traced σ :=
  (answer.1, { backends := answer.2, calls := t.calls ++ [call] })

variable [Backends σ]

instance : Backends (Traced σ) where
  probe t address := t.note (.probe address) (Backends.probe t.backends address)
  wake t mac port broadcastAddress :=
    t.note (.command (.wake mac port broadcastAddress)) (Backends.wake t.backends mac port broadcastAddress)
  shutdown t host user := t.note (.command (.shutdown host user)) (Backends.shutdown t.backends host user)
  powerOn t address username password :=
    t.note (.command (.bmcOn address username password)) (Backends.powerOn t.backends address username password)
  powerOff t address username password :=
    t.note (.command (.bmcOff address username password)) (Backends.powerOff t.backends address username password)

theorem execute_eq (t : Traced σ) (command : PowerCommand) :
    Backends.execute t command = t.note (.command command) (Backends.execute t.backends command) := by
  cases command <;> rfl

end Traced

/-- The call that backends get for a deed; the store is asked without them. -/
def Deed.call? : Deed → Option BackendCall
  | .ask _ => none
  | .probe address => some (.probe address)
  | .command c => some (.command c)

namespace World

variable {σ : Type}

/-- The world with backends that note the calls they get, after those in `calls`. -/
def traced (w : World σ) (calls : List BackendCall) : World (Traced σ) :=
  { w with plant := { backends := w.plant, calls } }

variable [Backends σ]

/-- The calls that the backends get in a reconciliation. -/
def calls (w : World σ) (name : String) (now : Timestamp) : List BackendCall :=
  (w.deeds name now).filterMap Deed.call?

theorem perform_traced (w : World σ) (calls : List BackendCall) (d : Deed) :
    (w.traced calls).perform d = ((w.perform d).1, (w.perform d).2.traced (calls ++ d.call?.toList)) := by
  cases d with
  | ask r =>
    simp only [Deed.call?, Option.toList, List.append_nil]
    rfl
  | probe address => rfl
  | command command =>
    simp only [perform, execute, traced, Traced.execute_eq]
    rfl

theorem run_traced {α : Type} (c : Course α) (w : World σ) (calls : List BackendCall) :
    c.run (w.traced calls) =
      ((c.run w).1, (c.run w).2.traced (calls ++ (c.deeds w).filterMap Deed.call?)) := by
  induction c generalizing w calls with
  | done a => simp only [Course.run, Course.deeds, List.filterMap_nil, List.append_nil]
  | go d next ih =>
    simp only [Course.run, Course.deeds, perform_traced, ih, List.append_assoc]
    cases hd : d.call? <;> simp [hd]

/-- Backends that note their calls make no difference, and the calls noted are those of the deeds. -/
theorem reconcile_traced (w : World σ) (calls : List BackendCall) (name : String) (now : Timestamp) :
    (w.traced calls).reconcile name now =
      ((w.reconcile name now).1, (w.reconcile name now).2.traced (calls ++ w.calls name now)) := by
  have hrecord : (w.traced calls).reconcileRecord name now =
      ((w.reconcileRecord name now).1, (w.reconcileRecord name now).2.traced (calls ++ w.calls name now)) := by
    rw [← run_reconcile, ← run_reconcile]
    exact run_traced ..
  unfold reconcile
  rw [hrecord]
  rfl

end World

end MetalPool
