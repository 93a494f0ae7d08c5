import MetalPool.Proofs.Store.Redacted
import MetalPool.World.Step
/-!
# What the pool asks for

Every call on the pool, typed or remote, asks the store for records and for
changes of desired states, and never for a status write. It goes by the names,
versions, labels and desired states of the records that it gets: whatever the
passwords are in them, it asks for the same and ends with the same.
-/

namespace MetalPool

open Session

/-- All requests of a session of the pool satisfy `p`. -/
def PoolSession.Asks (p : StoreRequest → Prop) {α : Type} (session : PoolSession α) : Prop :=
  Session.Asks p session.run

/-- A session of the pool goes on alike whatever the passwords are in the records it gets. -/
def PoolSession.Blind {α : Type} (session : PoolSession α) : Prop := Session.Blind session.run

namespace Pool

variable {α β : Type} {session : PoolSession α}

abbrev Spares {α : Type} (session : PoolSession α) : Prop := session.Asks StoreRequest.SparesStatus

/-- The session leaves statuses and passwords to others. -/
structure Discreet (session : PoolSession α) : Prop where
  spares : Spares session
  blind : session.Blind

theorem discreet_return (a : α) : Discreet (pure a : PoolSession α) := ⟨trivial, trivial⟩

theorem discreet_throw (e : PoolError) : Discreet (throw e : PoolSession α) := ⟨trivial, trivial⟩

theorem discreet_seq {next : α → PoolSession β} (h : Discreet session) (hn : ∀ a, Discreet (next a)) :
    Discreet (session >>= next) := by
  refine ⟨asks_bind h.spares fun result => ?_, blind_bind h.blind fun result => ?_⟩
  · cases result with
    | ok a => exact (hn a).spares
    | error e => trivial
  · cases result with
    | ok a => exact (hn a).blind
    | error e => trivial

/-- What is done with an answer must not hang on the passwords in it. -/
theorem discreet_ask {r : StoreRequest} {next : r.Answer → PoolSession α} (hr : r.SparesStatus)
    (hn : ∀ a, Discreet (next a)) (hsame : ∀ a, next (r.redact a) = next a) :
    Discreet (ask r >>= next) := by
  refine ⟨⟨hr, fun answer => ?_⟩, fun answer => ?_⟩
  · cases answer with
    | ok a => exact (hn a).spares
    | error e => trivial
  · cases answer with
    | ok a => exact ⟨(hn a).blind, congrArg ExceptT.run (hsame a)⟩
    | error e => exact ⟨trivial, rfl⟩

theorem discreet_checkGroup (id : String) : Discreet (checkGroup id) := by
  unfold checkGroup
  split
  · exact discreet_return _
  · exact discreet_throw _

/-! ## One lemma for each call -/

theorem discreet_list {next : List Server → PoolSession α} (hn : ∀ servers, Discreet (next servers))
    (hsame : ∀ servers, next (servers.map Server.redacted) = next servers) :
    Discreet (ask .list >>= next) :=
  discreet_ask trivial hn hsame

theorem discreet_groups : Discreet groups :=
  discreet_list (fun _ => discreet_return _) fun servers => by rw [List.length_map]

theorem discreet_groupFor (node : Option Node) : Discreet (groupFor node) := by
  cases node with
  | none => exact discreet_throw _
  | some node =>
    refine discreet_ask trivial (fun server => ?_) fun server => ?_
    · cases server with
      | none => exact discreet_return _
      | some server =>
        exact discreet_list (fun _ => discreet_return _) fun servers => by rw [List.length_map]
    · cases server <;> rfl

theorem discreet_targetSize (id : String) : Discreet (targetSize id) := by
  refine discreet_seq (discreet_checkGroup id) fun _ =>
    discreet_list (fun _ => discreet_return _) fun servers => ?_
  rw [List.countP_map]
  rfl

theorem discreet_setAll (state : PowerState) (servers : List Server) :
    Discreet (setAll state servers) := by
  induction servers with
  | nil => exact discreet_return _
  | cons s rest ih =>
    exact discreet_ask trivial (fun _ => discreet_seq ih fun _ => discreet_return _) fun _ => rfl

theorem setAll_redacted (state : PowerState) (servers : List Server) :
    setAll state (servers.map Server.redacted) = setAll state servers := by
  induction servers with
  | nil => rfl
  | cons s rest ih =>
    simp only [List.map_cons, setAll, ih, Server.name_redacted, Server.version?_redacted]

theorem candidates_redacted (source : PowerState) (n : Nat) (servers : List Server) :
    candidates source n (servers.map Server.redacted) =
      (candidates source n servers).map Server.redacted := by
  unfold candidates
  rw [List.filter_map, List.map_take]
  rfl

theorem discreet_flip (n : Nat) (source target : PowerState) : Discreet (flip n source target) :=
  discreet_list (fun _ => discreet_setAll ..) fun servers => by
    rw [candidates_redacted, setAll_redacted]

theorem discreet_increaseSize (id : String) (delta : Int32) : Discreet (increaseSize id delta) := by
  refine discreet_seq (discreet_checkGroup id) fun _ => ?_
  split
  · exact discreet_return _
  · refine discreet_seq (discreet_flip ..) fun provisioned => ?_
    split
    · exact discreet_throw _
    · exact discreet_return _

theorem discreet_decreaseTargetSize (id : String) (delta : Int32) :
    Discreet (decreaseTargetSize id delta) := by
  refine discreet_seq (discreet_checkGroup id) fun _ => ?_
  split
  · exact discreet_return _
  · exact discreet_seq (discreet_flip ..) fun _ => discreet_return _

theorem discreet_turnOff (nodes : List Node) : Discreet (turnOff nodes) := by
  induction nodes with
  | nil => exact discreet_return _
  | cons node rest ih =>
    refine discreet_ask trivial (fun found => ?_) fun found => ?_
    · cases found with
      | none => exact discreet_throw _
      | some s => exact discreet_ask trivial (fun _ => ih) fun _ => rfl
    · cases found <;> rfl

theorem discreet_deleteNodes (id : String) (nodes : List Node) : Discreet (deleteNodes id nodes) :=
  discreet_seq (discreet_checkGroup id) fun _ => discreet_turnOff nodes

theorem discreet_instances (id : String) : Discreet (instances id) := by
  refine discreet_seq (discreet_checkGroup id) fun _ =>
    discreet_list (fun _ => discreet_return _) fun servers => ?_
  rw [List.map_map]
  rfl

theorem discreet_gpuTypeCounts : Discreet gpuTypeCounts := by
  refine discreet_list (fun _ => discreet_return _) fun servers => ?_
  rw [List.filterMap_map]
  rfl

/-! ## Calls from within the process and remote ones -/

theorem discreet_session (call : PoolCall) : Discreet call.session := by
  cases call with
  | groups => exact discreet_seq discreet_groups fun _ => discreet_return _
  | groupFor node => exact discreet_seq (discreet_groupFor node) fun _ => discreet_return _
  | targetSize id => exact discreet_seq (discreet_targetSize id) fun _ => discreet_return _
  | increaseSize id delta =>
    exact discreet_seq (discreet_increaseSize id delta) fun _ => discreet_return _
  | decreaseTargetSize id delta =>
    exact discreet_seq (discreet_decreaseTargetSize id delta) fun _ => discreet_return _
  | deleteNodes id nodes => exact discreet_seq (discreet_deleteNodes id nodes) fun _ => discreet_return _
  | instances id => exact discreet_seq (discreet_instances id) fun _ => discreet_return _
  | gpuTypeCounts => exact discreet_seq discreet_gpuTypeCounts fun _ => discreet_return _

theorem discreet_handle (m : RpcMethod) (request : m.Request) : Discreet (handle m request) := by
  cases m with
  | nodeGroups => exact discreet_seq discreet_groups fun _ => discreet_return _
  | nodeGroupForNode => exact discreet_seq (discreet_groupFor _) fun _ => discreet_return _
  | gpuLabel => exact discreet_return _
  | availableGpuTypes => exact discreet_seq discreet_gpuTypeCounts fun _ => discreet_return _
  | cleanup => exact discreet_return _
  | refresh => exact discreet_return _
  | targetSize => exact discreet_seq (discreet_targetSize _) fun _ => discreet_return _
  | increaseSize => exact discreet_seq (discreet_increaseSize _ _) fun _ => discreet_return _
  | deleteNodes => exact discreet_seq (discreet_deleteNodes _ _) fun _ => discreet_return _
  | decreaseTargetSize => exact discreet_seq (discreet_decreaseTargetSize _ _) fun _ => discreet_return _
  | nodes => exact discreet_seq (discreet_instances _) fun _ => discreet_return _

theorem spares_session (call : PoolCall) : Spares call.session := (discreet_session call).spares

theorem serve_spares (m : RpcMethod) (request : m.Request) :
    (serve m request).Asks StoreRequest.SparesStatus := by
  refine asks_bind (discreet_handle m request).spares fun result => ?_
  cases result <;> trivial

theorem serveBytes_spares (writer : ResponseWriter) (target : String) (bs : Bytes) :
    (serveBytes writer target bs).Asks StoreRequest.SparesStatus := by
  unfold serveBytes
  split
  · trivial
  · split
    · trivial
    · split
      · trivial
      · refine asks_bind (serve_spares ..) fun result => ?_
        cases result <;> trivial

theorem serve_blind (m : RpcMethod) (request : m.Request) : (serve m request).Blind := by
  refine blind_bind (discreet_handle m request).blind fun result => ?_
  cases result <;> trivial

theorem serveBytes_blind (writer : ResponseWriter) (target : String) (bs : Bytes) :
    (serveBytes writer target bs).Blind := by
  unfold serveBytes
  split
  · trivial
  · split
    · trivial
    · split
      · trivial
      · refine blind_bind (serve_blind _ _) fun result => ?_
        cases result <;> trivial

end Pool

end MetalPool
