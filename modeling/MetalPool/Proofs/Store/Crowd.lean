import Mathlib.Algebra.BigOperators.Group.Finset.Piecewise
import MetalPool.Pool.Scaling
import MetalPool.Proofs.Store.History
/-!
# Clients side by side

A `Crowd` is any number of clients that each hold a session with one store, and
their requests reach it in any order. `Session.Grows` is what a client has to
keep to: whatever the others did since its last request, the next one turns on
a machine only where nobody did before. What such clients turn on together is
then counted once (`Sound.after`).
-/

namespace MetalPool

/-- The name of the record that the request turns on, if it goes through. -/
def StoreRequest.turnsOn? (r : StoreRequest) (s : Store) : Option String :=
  match r with
  | .updatePowerState name version .on =>
    if (s.updatePowerState name version .on).1.isOk then some name else none
  | _ => none

/-- Clients that each hold a session with the one store. -/
structure Crowd (ι α : Type) where
  session : ι → Session α
  store : Store

/-- A client makes its next request, if it has one, or the next write to `name` is to be refused. -/
inductive Crowd.Move (ι : Type) where
  | request (client : ι)
  | conflictNext (name : String)

namespace Crowd

variable {ι α : Type} [DecidableEq ι]

def move (c : Crowd ι α) : Move ι → Crowd ι α
  | .request i =>
    match c.session i with
    | .done _ => c
    | .ask r next =>
      { session := Function.update c.session i (next (Store.serve r c.store).1)
        store := (Store.serve r c.store).2 }
  | .conflictNext name => { c with store := c.store.conflictNext name }

/-- The clients after the moves, in order. -/
def after (c : Crowd ι α) (moves : List (Move ι)) : Crowd ι α := moves.foldl move c

/-- What the session of client `i` came to, if it has ended. -/
def result? (c : Crowd ι α) (i : ι) : Option α :=
  match c.session i with
  | .done a => some a
  | .ask .. => none

/-- The client that turns a machine on in a move, and the name of its record. -/
def turnsOn? (c : Crowd ι α) : Move ι → Option (ι × String)
  | .request i =>
    match c.session i with
    | .done _ => none
    | .ask r _ => (r.turnsOn? c.store).map (i, ·)
  | .conflictNext _ => none

/-- Who turned on what in a run. -/
def turnedOn (c : Crowd ι α) : List (Move ι) → List (ι × String)
  | [] => []
  | m :: rest => (c.turnsOn? m).toList ++ (c.move m).turnedOn rest

/-- The names that stand with client `i`. -/
def namesOf (i : ι) (log : List (ι × String)) : List String := (log.filter (·.1 = i)).map Prod.snd

/-- The names of the records that client `i` turned on in a run. -/
def turnedOnBy (c : Crowd ι α) (i : ι) (moves : List (Move ι)) : List String :=
  namesOf i (c.turnedOn moves)

end Crowd

theorem Pool.not_running_of_off {server : Server} (h : server.spec.desired = .off) :
    isRunning server = false := by
  unfold ServerSpec.desired at h
  unfold isRunning
  cases hp : server.spec.powerState with
  | none => rfl
  | some d =>
    rw [hp] at h
    cases h
    rfl

/-- A later state of the store. -/
def Store.Leads (s later : Store) : Prop := ∃ events, later = s.after events

/-- The request turns on no machine that should be on already, and writes nothing else. A record at
another version than the one named does not count, since the write to it is refused. -/
def StoreRequest.Careful (r : StoreRequest) (s : Store) : Prop :=
  match r with
  | .get _ | .list => True
  | .updatePowerState name version state =>
    state = .on ∧ version.isSome ∧
      ∀ server, s.get name = some server → server.version? = version → server.spec.desired = .off
  | .updateStatus .. => False

/-- All requests of a session are careful, whatever others do in between, and at its end `post` holds of
how many machines it turned on, the store that it saw last, and its value. `n` were turned on before,
and `s` is the store last seen. -/
def Session.Grows {α : Type} (post : Nat → Store → α → Prop) : Session α → Nat → Store → Prop
  | .done a, n, s => post n s a
  | .ask r next, n, s =>
    ∀ later, s.Leads later → r.Careful later ∧
      (next (Store.serve r later).1).Grows post (n + (r.turnsOn? later).toList.length)
        (Store.serve r later).2

namespace Store

variable {s later last : Store}

theorem Leads.refl (s : Store) : s.Leads s := ⟨[], rfl⟩

theorem Leads.trans (h : s.Leads later) (h' : later.Leads last) : s.Leads last := by
  obtain ⟨events, rfl⟩ := h
  obtain ⟨rest, rfl⟩ := h'
  exact ⟨events ++ rest, (after_append ..).symm⟩

theorem leads_apply (s : Store) (e : StoreEvent) : s.Leads (s.apply e) := ⟨[e], rfl⟩

theorem leads_serve (s : Store) (r : StoreRequest) : s.Leads (serve r s).2 := s.leads_apply (.request r)

theorem Leads.numbered (hl : s.Leads later) (h : s.Numbered) : later.Numbered := by
  obtain ⟨events, rfl⟩ := hl
  exact h.after events

/-- A record that is at the version of an earlier one is that record. -/
theorem Leads.get_eq (hl : s.Leads later) (h : s.Numbered) {name : String} {server found : Server}
    (hg : s.get name = some server) (hfound : later.get name = some found)
    (hv : found.version? = server.version?) : found = server := by
  obtain ⟨events, rfl⟩ := hl
  exact get_eq_of_version h hg hfound hv

theorem Numbered.version_isSome (h : s.Numbered) {name : String} {server : Server}
    (hg : s.get name = some server) : server.version?.isSome := by
  have hpos := (h name server hg).2.1
  cases hv : server.version? with
  | none => rw [hv] at hpos; cases hpos
  | some => rfl

/-- What a careful request does, in two cases. -/
theorem serve_careful {r : StoreRequest} (hr : r.Careful s) :
    -- No record is touched.
    (r.turnsOn? s = none ∧ (serve r s).2.records = s.records) ∨
    -- A machine that was to be off is to be on.
    ∃ name server, r.turnsOn? s = some name ∧ s.get name = some server ∧
      server.spec.desired = .off ∧ (serve r s).2 = s.commit name (server.withPowerState .on) := by
  cases r with
  | get | list => exact .inl ⟨rfl, rfl⟩
  | updateStatus => cases hr
  | updatePowerState name version state =>
    obtain ⟨rfl, hsome, hoff⟩ := hr
    unfold StoreRequest.turnsOn? serve updatePowerState
    rcases write_of s name version (·.withPowerState .on) with
      ⟨-, hw⟩ | ⟨-, -, hw⟩ | ⟨-, _, -, -, -, hw⟩ | ⟨-, server, hg, hv, hw⟩ <;> simp only [hw]
    · exact .inl ⟨rfl, rfl⟩
    · exact .inl ⟨rfl, rfl⟩
    · exact .inl ⟨rfl, rfl⟩
    · exact .inr ⟨name, server, rfl, hg, hoff server hg (hv hsome), rfl⟩

/-- The machines of the names should all be on, each name is there once, and without them `size`
machines should be on. -/
structure Tally (size : Nat) (s : Store) (names : List String) : Prop where
  running : ∀ name ∈ names, ∃ server, s.get name = some server ∧ Pool.isRunning server
  nodup : names.Nodup
  size_eq : s.list.countP Pool.isRunning = size + names.length

theorem Tally.of_records {size : Nat} {names : List String} (h : Tally size s names)
    (hrecords : later.records = s.records) : Tally size later names := by
  have hget : later.get = s.get := by
    unfold Store.get
    rw [hrecords]
  have hlist : later.list = s.list := by
    unfold Store.list
    rw [hrecords]
  exact ⟨hget ▸ h.running, h.nodup, hlist ▸ h.size_eq⟩

/-- A machine that was to be off is none of those turned on before. -/
theorem Tally.commit {size : Nat} {names : List String} {name : String} {server : Server}
    (h : Tally size s names) (hg : s.get name = some server) (hoff : server.spec.desired = .off) :
    Tally size (s.commit name (server.withPowerState .on)) (names ++ [name]) := by
  have hnot : Pool.isRunning server = false := Pool.not_running_of_off hoff
  refine ⟨?_, ?_, ?_⟩
  · intro n hn
    rw [get_commit]
    by_cases he : n = name
    · rw [if_pos he]
      exact ⟨_, rfl, rfl⟩
    · rw [if_neg he]
      exact h.running n ((List.mem_append.1 hn).resolve_right (by simpa using he))
  · have hfresh : name ∉ names := by
      intro hm
      obtain ⟨found, hfound, hon⟩ := h.running name hm
      rw [hg] at hfound
      cases hfound
      rw [hnot] at hon
      cases hon
    exact List.nodup_append_comm.1 (List.nodup_cons.2 ⟨hfresh, h.nodup⟩)
  · have hcount := SortedMap.countP_insert s.records
      ((server.withPowerState .on).withVersion s.nextVersion) Pool.isRunning hg
    have hon : Pool.isRunning ((server.withPowerState .on).withVersion s.nextVersion) = true := rfl
    rw [hnot, hon, Bool.toNat_false, Bool.toNat_true, Nat.add_zero] at hcount
    rw [List.length_append, List.length_singleton, ← Nat.add_assoc, ← h.size_eq]
    exact hcount

theorem Tally.serve {size : Nat} {names : List String} {r : StoreRequest} (h : Tally size s names)
    (hr : r.Careful s) : Tally size (serve r s).2 (names ++ (r.turnsOn? s).toList) := by
  rcases serve_careful hr with ⟨hnone, hrecords⟩ | ⟨name, server, hsome, hg, hoff, hcommit⟩
  · rw [hnone, Option.toList_none, List.append_nil]
    exact h.of_records hrecords
  · rw [hsome, Option.toList_some, hcommit]
    exact h.commit hg hoff

end Store

namespace Session

variable {α β : Type}

theorem grows_bind {mid : Nat → Store → α → Prop} {post : Nat → Store → β → Prop} {session : Session α}
    {next : α → Session β} {n : Nat} {s : Store} (h : session.Grows mid n s)
    (hn : ∀ k s a, mid k s a → (next a).Grows post k s) : (session >>= next).Grows post n s := by
  induction session generalizing n s with
  | done a => exact hn n s a h
  | ask r rest ih =>
    intro later hl
    exact ⟨(h later hl).1, ih _ (h later hl).2⟩

theorem Grows.mono {post post' : Nat → Store → α → Prop} {session : Session α} {n : Nat} {s : Store}
    (h : session.Grows post n s) (hp : ∀ k s a, post k s a → post' k s a) : session.Grows post' n s := by
  induction session generalizing n s with
  | done a => exact hp n s a h
  | ask r rest ih =>
    intro later hl
    exact ⟨(h later hl).1, ih _ (h later hl).2⟩

end Session

namespace Crowd

open Store

variable {ι α : Type} [DecidableEq ι] {c : Crowd ι α} {log : List (ι × String)}
  {post : ι → Nat → Store → α → Prop} {size : Nat}

/-- Clients that keep to their part and turned on the records of `log`, where `size` machines should be
on before. -/
structure Sound (post : ι → Nat → Store → α → Prop) (size : Nat) (c : Crowd ι α)
    (log : List (ι × String)) : Prop where
  numbered : c.store.Numbered
  grows : ∀ i, ∃ s : Store, s.Leads c.store ∧ (c.session i).Grows (post i) (namesOf i log).length s
  tally : Tally size c.store (log.map Prod.snd)

theorem namesOf_append (i : ι) (log rest : List (ι × String)) :
    namesOf i (log ++ rest) = namesOf i log ++ namesOf i rest := by
  unfold namesOf
  rw [List.filter_append, List.map_append]

theorem namesOf_map (i j : ι) (name : Option String) :
    namesOf j (name.map (i, ·)).toList = if i = j then name.toList else [] := by
  unfold namesOf
  cases name with
  | none => simp
  | some name => by_cases hij : i = j <;> simp [hij]

theorem mem_of_mem_namesOf {i : ι} {name : String} (h : name ∈ namesOf i log) :
    name ∈ log.map Prod.snd := by
  obtain ⟨e, he, rfl⟩ := List.mem_map.1 h
  exact List.mem_map_of_mem (List.mem_filter.1 he).1

/-! ## Runs -/

/-- A request counts for the client that makes it. -/
theorem Sound.request {i : ι} {r : StoreRequest} {next : Except StoreError r.Answer → Session α}
    (h : c.Sound post size log) (hi : c.session i = .ask r next) :
    Sound post size
      { session := Function.update c.session i (next (serve r c.store).1), store := (serve r c.store).2 }
      (log ++ ((r.turnsOn? c.store).map (i, ·)).toList) := by
  obtain ⟨s, hl, hgrows⟩ := h.grows i
  rw [hi] at hgrows
  obtain ⟨hcareful, hnext⟩ := hgrows c.store hl
  refine ⟨(leads_serve c.store r).numbered h.numbered, fun j => ?_, ?_⟩
  · simp only [namesOf_append, namesOf_map, List.length_append]
    by_cases hij : i = j
    · subst hij
      rw [Function.update_self, if_pos rfl]
      exact ⟨_, .refl _, hnext⟩
    · rw [Function.update_of_ne (Ne.symm hij), if_neg hij]
      -- To another client this is one more thing that happened since it last asked.
      obtain ⟨s, hl, hgrows⟩ := h.grows j
      exact ⟨s, hl.trans (leads_serve c.store r), hgrows⟩
  · have hnames : ((r.turnsOn? c.store).map (i, ·)).toList.map Prod.snd =
        (r.turnsOn? c.store).toList := by
      cases r.turnsOn? c.store <;> rfl
    rw [List.map_append, hnames]
    exact h.tally.serve hcareful

theorem Sound.move (h : c.Sound post size log) (m : Move ι) :
    (c.move m).Sound post size (log ++ (c.turnsOn? m).toList) := by
  cases m with
  | conflictNext name =>
    have hl := leads_apply c.store (.conflictNext name)
    refine ⟨hl.numbered h.numbered, fun i => ?_, ?_⟩ <;>
      rw [turnsOn?, Option.toList_none, List.append_nil]
    · obtain ⟨s, hs, hgrows⟩ := h.grows i
      exact ⟨s, hs.trans hl, hgrows⟩
    · exact h.tally.of_records rfl
  | request i =>
    cases hi : c.session i with
    | done a =>
      simp only [Crowd.move, turnsOn?, hi, Option.toList_none, List.append_nil]
      exact h
    | ask r next =>
      simp only [Crowd.move, turnsOn?, hi]
      exact h.request hi

/-- In a run every machine turned on is turned on by one client, once. -/
theorem Sound.after (h : c.Sound post size log) (moves : List (Move ι)) :
    (c.after moves).Sound post size (log ++ c.turnedOn moves) := by
  induction moves generalizing c log with
  | nil =>
    rw [turnedOn, List.append_nil]
    exact h
  | cons m rest ih =>
    rw [turnedOn, ← List.append_assoc]
    exact ih (h.move m)

/-- A session that has ended did its part. -/
theorem Sound.post_of_result (h : c.Sound post size log) {i : ι} {a : α} (ha : c.result? i = some a) :
    ∃ s, post i (namesOf i log).length s a := by
  obtain ⟨s, -, hgrows⟩ := h.grows i
  unfold result? at ha
  cases hi : c.session i with
  | ask r next =>
    rw [hi] at ha
    cases ha
  | done b =>
    rw [hi] at ha hgrows
    cases ha
    exact ⟨s, hgrows⟩

/-- Clients that never saw the store are sound if each of their sessions is. -/
theorem sound_start (hnumbered : c.store.Numbered)
    (hgrows : ∀ i, (c.session i).Grows (post i) 0 c.store) :
    c.Sound post (c.store.list.countP Pool.isRunning) [] where
  numbered := hnumbered
  grows i := ⟨c.store, .refl _, hgrows i⟩
  tally := ⟨nofun, .nil, rfl⟩

/-- Nothing is turned on by two clients. -/
theorem disjoint_namesOf (h : (log.map Prod.snd).Nodup) {i j : ι} (hij : i ≠ j) :
    (namesOf i log).Disjoint (namesOf j log) := by
  intro name hi hj
  obtain ⟨a, ha, rfl⟩ := List.mem_map.1 hi
  obtain ⟨b, hb, he⟩ := List.mem_map.1 hj
  obtain ⟨ha, hai⟩ := List.mem_filter.1 ha
  obtain ⟨hb, hbj⟩ := List.mem_filter.1 hb
  have hab : b = a := List.inj_on_of_nodup_map h hb ha he
  subst hab
  exact hij ((of_decide_eq_true hai).symm.trans (of_decide_eq_true hbj))

theorem nodup_namesOf (h : (log.map Prod.snd).Nodup) (i : ι) : (namesOf i log).Nodup :=
  h.sublist (List.filter_sublist.map _)

/-- All that is turned on is turned on by some client. -/
theorem sum_length_namesOf [Fintype ι] (log : List (ι × String)) :
    ∑ i, (namesOf i log).length = log.length := by
  induction log with
  | nil => simp [namesOf]
  | cons e rest ih =>
    have hcons : ∀ i, (namesOf i (e :: rest)).length =
        (if e.1 = i then 1 else 0) + (namesOf i rest).length := by
      intro i
      unfold namesOf
      rw [List.filter_cons]
      by_cases he : e.1 = i <;> simp [he, Nat.add_comm]
    simp only [hcons, Finset.sum_add_distrib, ih, Finset.sum_ite_eq, Finset.mem_univ, if_pos,
      List.length_cons]
    omega

end Crowd

end MetalPool
