import MetalPool.Proofs.Pool.Runs
import MetalPool.Proofs.Server.RoundTrip
import MetalPool.Proofs.Store.Listing
/-!
# Which machines a call picks

A call that resizes the pool picks machines from the list of the records, in the
order of the list, and asks for one after the other until a request is refused.
It does so whoever answers its requests: `Carried` says what is asked for then,
and with what answers.

A cluster and records in memory list the same records in the same order. So a
call picks the same machines on both, and can only stop earlier on one of them
(`listing_is_canonical`).
-/

namespace MetalPool

variable {σ : Type} {target : PowerState} {due due' : List Server}
  {log log' : List (StoreRequest × Bool)}

/-- What a client of the cluster is answered where `api` is the cluster's API, of any state. -/
def Cluster.serve (api : ApiRequest → σ → ApiReply × σ) (r : StoreRequest) (t : σ) :
    Except StoreError r.Answer × σ :=
  match apiRequest? r with
  | some request => (answer r (api request t).1, (api request t).2)
  | none => (answer r .broken, t)

/-! ## Requests that follow a list of records -/

/-- The requests that turn the machines to `target` in order, each at the version of its record, up to the
first that is refused. -/
inductive Carried (target : PowerState) : List Server → List (StoreRequest × Bool) → Prop where
  | done : Carried target [] []
  | accepted (server : Server) {rest : List Server} {log : List (StoreRequest × Bool)}
    (h : Carried target rest log) :
    Carried target (server :: rest) ((.updatePowerState server.name server.version? target, true) :: log)
  | refused (server : Server) (rest : List Server) :
    Carried target (server :: rest) [(.updatePowerState server.name server.version? target, false)]

/-- The requests that write. -/
def updatesOf (log : List (StoreRequest × Bool)) : List (StoreRequest × Bool) :=
  log.filter (·.1.target?.isSome)

/-- The names written to. -/
def updatedNames (log : List (StoreRequest × Bool)) : List String := log.filterMap (·.1.target?)

namespace Carried

theorem updatesOf_eq (h : Carried target due log) : updatesOf log = log := by
  induction h with
  | done => rfl
  | accepted server h ih => exact congrArg (_ :: ·) ih
  | refused => rfl

theorem updatedNames_eq (h : Carried target due log) :
    updatedNames log = (due.map Server.name).take log.length := by
  induction h with
  | done => rfl
  | accepted server h ih => exact congrArg (_ :: ·) ih
  | refused => rfl

theorem length_eq (h : Carried target due log) (hall : ∀ e ∈ log, e.2 = true) :
    log.length = due.length := by
  induction h with
  | done => rfl
  | accepted server h ih =>
    exact congrArg (· + 1) (ih fun e he => hall e (List.mem_cons_of_mem _ he))
  | refused server rest => cases hall _ List.mem_cons_self

end Carried

/-! ## The sessions that resize the pool -/

namespace Pool

variable {α β : Type} {serve : (r : StoreRequest) → σ → Except StoreError r.Answer × σ} {t : σ}

theorem run_ask_seq (r : StoreRequest) (next : r.Answer → PoolSession β) :
    (ask r >>= next).run = .ask r fun
      | .ok a => (next a).run
      | .error e => .done (.error (.store e)) := by
  refine congrArg (Session.ask r) (funext fun answer => ?_)
  cases answer <;> rfl

theorem log_ask_of_ok {r : StoreRequest} {a : r.Answer} (h : (serve r t).1 = .ok a)
    (next : r.Answer → PoolSession β) :
    (ask r >>= next).run.log serve t = (r, true) :: (next a).run.log serve (serve r t).2 := by
  rw [run_ask_seq, Session.log, h]
  rfl

theorem log_ask_of_error {r : StoreRequest} {e : StoreError} (h : (serve r t).1 = .error e)
    (next : r.Answer → PoolSession β) : (ask r >>= next).run.log serve t = [(r, false)] := by
  rw [run_ask_seq, Session.log, h]
  rfl

/-- What follows without a request of its own is not seen. -/
theorem log_seq_of_quiet {session : PoolSession α} {next : α → PoolSession β}
    (h : ∀ a t, (next a).run.log serve t = []) (t : σ) :
    (session >>= next).run.log serve t = session.run.log serve t := by
  refine (Session.log_bind serve session.run _ t).trans ?_
  obtain ⟨result, later⟩ := session.run.hold serve t
  cases result with
  | ok a => exact (congrArg _ (h a later)).trans (List.append_nil _)
  | error e => exact List.append_nil _

theorem carried_setAll (target : PowerState) (servers : List Server) (t : σ) :
    Carried target servers ((setAll target servers).run.log serve t) := by
  induction servers generalizing t with
  | nil => exact .done
  | cons server rest ih =>
    let next (_ : Unit) : PoolSession Nat := setAll target rest >>= fun n => pure (n + 1)
    cases h : (serve (.updatePowerState server.name server.version? target) t).1 with
    | ok a =>
      have hlog : (setAll target (server :: rest)).run.log serve t = _ := log_ask_of_ok h next
      rw [hlog, log_seq_of_quiet fun n t => rfl]
      exact .accepted server (ih _)
    | error e =>
      have hlog : (setAll target (server :: rest)).run.log serve t = _ := log_ask_of_error h next
      rw [hlog]
      exact .refused server rest

/-- A call asks for the machines that it picks from the list it is answered. -/
theorem carried_flip {servers : List Server} (hlist : (serve .list t).1 = .ok servers) (n : Nat)
    (source target : PowerState) {next : Nat → PoolSession Unit}
    (hnext : ∀ n t, (next n).run.log serve t = []) :
    Carried target (candidates source n servers)
      (updatesOf ((flip n source target >>= next).run.log serve t)) := by
  have hlog : (flip n source target).run.log serve t = _ :=
    log_ask_of_ok hlist fun servers => setAll target (candidates source n servers)
  rw [log_seq_of_quiet hnext, hlog]
  have hcarried : Carried target _ ((setAll target (candidates source n servers)).run.log serve
      (serve .list t).2) := carried_setAll target _ _
  rw [← hcarried.updatesOf_eq] at hcarried
  exact hcarried

theorem log_checkGroup (next : Unit → PoolSession β) :
    (checkGroup groupId >>= next).run.log serve t = (next ()).run.log serve t := rfl

theorem carried_increaseSize {servers : List Server} (hlist : (serve .list t).1 = .ok servers)
    (delta : Int32) :
    Carried .on (candidates .off delta.toInt.toNat servers)
      (updatesOf ((increaseSize groupId delta).run.log serve t)) := by
  unfold increaseSize
  rw [log_checkGroup]
  by_cases hd : delta ≤ 0
  · rw [if_pos hd, candidates_nonpos .off hd]
    exact .done
  · rw [if_neg hd]
    refine carried_flip hlist _ .off .on fun n t => ?_
    split <;> rfl

theorem carried_decreaseTargetSize {servers : List Server} (hlist : (serve .list t).1 = .ok servers)
    (delta : Int32) :
    Carried .off (candidates .on delta.toInt.toNat servers)
      (updatesOf ((decreaseTargetSize groupId delta).run.log serve t)) := by
  unfold decreaseTargetSize
  rw [log_checkGroup]
  by_cases hd : delta ≤ 0
  · rw [if_pos hd, candidates_nonpos .on hd]
    exact .done
  · rw [if_neg hd]
    exact carried_flip hlist _ .on .off fun n t => rfl

theorem candidates_unversioned (source : PowerState) (n : Nat) (servers : List Server) :
    candidates source n (servers.map Server.unversioned) =
      (candidates source n servers).map Server.unversioned := by
  unfold candidates
  rw [List.filter_map, List.map_take]
  rfl

/-! ## Two stores -/

/-- A call asks one store for the machines `due` and another for `due'`, which are the same but for the
versions. It writes to the same names in the same order, and to all of them on both stores unless one of
them refuses. -/
structure AskedAlike (target : PowerState) (due due' : List Server)
    (log log' : List (StoreRequest × Bool)) : Prop where
  first : Carried target due log
  second : Carried target due' log'
  due_eq : due'.map Server.unversioned = due.map Server.unversioned
  names_prefix : updatedNames log' <+: updatedNames log ∨ updatedNames log <+: updatedNames log'
  names_eq : (∀ e ∈ log ++ log', e.2 = true) →
    updatedNames log = due.map Server.name ∧ updatedNames log' = due.map Server.name

theorem askedAlike (h : Carried target due log) (h' : Carried target due' log')
    (hdue : due'.map Server.unversioned = due.map Server.unversioned) :
    AskedAlike target due due' log log' := by
  have hnames : due'.map Server.name = due.map Server.name := by
    have hmap := congrArg (List.map Server.name) hdue
    rw [List.map_map, List.map_map] at hmap
    exact hmap
  have hfirst := h.updatedNames_eq
  have hsecond := h'.updatedNames_eq
  rw [hnames] at hsecond
  refine ⟨h, h', hdue, ?_, fun hall => ?_⟩
  · rw [hfirst, hsecond]
    exact List.prefix_or_prefix_of_prefix (List.take_prefix ..) (List.take_prefix ..)
  · have hlength := h.length_eq fun e he => hall e (List.mem_append_left _ he)
    have hlength' := h'.length_eq fun e he => hall e (List.mem_append_right _ he)
    rw [← List.length_map Server.name] at hlength hlength'
    rw [hnames] at hlength'
    rw [hfirst, hsecond, hlength, hlength', List.take_length]
    exact ⟨rfl, rfl⟩

/-- The request for all records. -/
def listRequest : ApiRequest := { method := "GET", path := Cluster.serversPath }

/-- An answer of the cluster that lists records of distinct names comes to one list of them: in the order of
the names as bytes, whatever the order of the items. Records in memory are listed in the same way, if these
records were put in, in any order and with any conflicts pending. So a call that resizes the pool writes to
the same names in the same order on both, each time at the version listed there. -/
theorem listing_is_canonical {reply : ApiReply} {j : Json} {servers : List Server}
    (h : Cluster.Lists reply j servers) (hn : (servers.map Server.name).Nodup) :
    ∃ listed, Cluster.answer .list reply = .ok listed ∧ listed.Perm servers ∧
      (listed.map fun server => Bytes.ofText server.name).Pairwise (· < ·) ∧
      (∀ reply' body' j', Cluster.readReply reply' = .ok body' → Json.parse? body' = some j' →
        Cluster.Reordered j j' → Cluster.answer .list reply' = .ok listed) ∧
      ∀ (before : Store) (inserted : List Server), before.list = [] → inserted.Perm servers →
        let s := inserted.foldl Store.insert before
        s.list.map Server.unversioned = listed.map Server.unversioned ∧
        ∀ {τ : Type} (api : ApiRequest → τ → ApiReply × τ) (t : τ), (api listRequest t).1 = reply →
          ∀ delta : Int32,
            let n := delta.toInt.toNat
            AskedAlike .on (candidates .off n listed) (candidates .off n s.list)
              (updatesOf ((increaseSize groupId delta).run.log (Cluster.serve api) t))
              (updatesOf ((increaseSize groupId delta).run.log Store.serve s)) ∧
            AskedAlike .off (candidates .on n listed) (candidates .on n s.list)
              (updatesOf ((decreaseTargetSize groupId delta).run.log (Cluster.serve api) t))
              (updatesOf ((decreaseTargetSize groupId delta).run.log Store.serve s)) := by
  have hsorted := Cluster.sortByName_sorted hn
  have hanswer := h.answer_eq
  refine ⟨Cluster.sortByName servers, hanswer, Cluster.sortByName_perm servers, ?_, ?_, ?_⟩
  · rw [List.pairwise_map] at hsorted ⊢
    exact hsorted.imp Bytes.ofText_lt_ofText_iff.2
  · intro reply' body' j' hbody hparse hreordered
    obtain ⟨servers', hitems, hperm⟩ := Cluster.itemsOfJson?_reordered hreordered h.items_eq
    have hlists : Cluster.Lists reply' j' servers' := ⟨⟨body', hbody, hparse⟩, hitems⟩
    rw [hlists.answer_eq, Cluster.sortByName_eq_of_perm hn hperm]
  · intro before inserted hbefore hinserted s
    have hlist : s.list.map Server.unversioned = (Cluster.sortByName servers).map Server.unversioned :=
      Store.list_inserts hbefore hsorted
        (hinserted.trans (Cluster.sortByName_perm servers).symm)
    refine ⟨hlist, fun api t hapi delta => ?_⟩
    have hcluster : (Cluster.serve api .list t).1 = .ok (Cluster.sortByName servers) := by
      show Cluster.answer .list (api listRequest t).1 = _
      rw [hapi, hanswer]
    have hmemory : (Store.serve .list s).1 = .ok s.list := rfl
    have hdue (source : PowerState) (n : Nat) : (candidates source n s.list).map Server.unversioned =
        (candidates source n (Cluster.sortByName servers)).map Server.unversioned := by
      rw [← candidates_unversioned, ← candidates_unversioned, hlist]
    exact ⟨askedAlike (carried_increaseSize hcluster delta) (carried_increaseSize hmemory delta) (hdue ..),
      askedAlike (carried_decreaseTargetSize hcluster delta) (carried_decreaseTargetSize hmemory delta)
        (hdue ..)⟩

/-- Two machines, the later one listed first: both stores are asked for them by name. -/
theorem listing_is_canonical_swapped :
    let machine (name version : String) : Server :=
      { metadata := { name := some name, resourceVersion := some version } }
    let servers := [machine "m2" "7", machine "m1" "5"]
    let j : Json := .obj [("items", .arr (servers.map Server.toJson))]
    let reply : ApiReply := .answer 200 j.print
    let api (request : ApiRequest) (patches : Nat) : ApiReply × Nat :=
      if request.method = "GET" then (reply, patches)
      else (.answer 200 (machine "m1" "6").toJson.print, patches + 1)
    let s := servers.foldl Store.insert {}
    Cluster.Lists reply j servers ∧ (servers.map Server.name).Nodup ∧
      ∃ listed, Cluster.answer .list reply = .ok listed ∧ listed = servers.reverse ∧
        AskedAlike .on listed s.list
          (updatesOf ((increaseSize groupId 2).run.log (Cluster.serve api) 0))
          (updatesOf ((increaseSize groupId 2).run.log Store.serve s)) := by
  intro machine servers j reply api s
  have hplain : Json.Plain Json.maxDepth j := by
    refine .obj fun m hm => ?_
    obtain rfl := List.mem_singleton.1 hm
    refine .arr fun item hitem => ?_
    obtain ⟨server, -, rfl⟩ := List.mem_map.1 hitem
    exact server.plain_toJson
  have hlists : Cluster.Lists reply j servers :=
    ⟨⟨j.print, rfl, Json.parse?_print hplain⟩, by decide +kernel⟩
  have hnodup : (servers.map Server.name).Nodup := by decide
  obtain ⟨listed, hanswer, -, -, -, hmemory⟩ := listing_is_canonical hlists hnodup
  have hsorted : Cluster.sortByName servers = servers.reverse :=
    eq_of_names_sorted ((Cluster.sortByName_perm servers).trans (List.reverse_perm servers).symm)
      (Cluster.sortByName_sorted hnodup) (by decide +kernel)
  have hlisted : listed = servers.reverse :=
    (Except.ok.inj (hanswer.symm.trans hlists.answer_eq)).trans hsorted
  obtain ⟨-, hasked⟩ := hmemory {} servers rfl (.refl _)
  have hdue : candidates .off 2 listed = listed := by rw [hlisted]; decide +kernel
  have hdue' : candidates .off 2 s.list = s.list := by decide +kernel
  have hboth := (hasked api 0 rfl 2).1
  rw [show (2 : Int32).toInt.toNat = 2 from rfl, hdue, hdue'] at hboth
  exact ⟨hlists, hnodup, listed, hanswer, hlisted, hboth⟩

end Pool

end MetalPool
