import MetalPool.Proofs.Store.Write
/-!
# Histories of the records in memory

Any number of clients share the records, and whatever they do is one list of
events in the order in which the store meets them. `apply_of` sums up an event:
it leaves every record alone, or it puts one in at a version higher than any
before. So a version names one state of one record for good, and a write at the
version of an earlier read finds the record as it was read (`no_lost_update`).
-/

namespace MetalPool

/-- The name that a request writes to. -/
def StoreRequest.target? : StoreRequest → Option String
  | .get _ | .list => none
  | .updatePowerState name .. | .updateStatus name .. => some name

/-- The version that a write names. -/
def StoreRequest.expected? : StoreRequest → Option String
  | .get _ | .list => none
  | .updatePowerState _ version _ | .updateStatus _ version _ => version

/-- What can happen to the records at once. -/
inductive StoreEvent where
  | request (r : StoreRequest)
  | insert (server : Server)
  | conflictNext (name : String)

/-- The number that a version is the text of. -/
def versionNumber : Option String → Nat
  | none => 0
  | some version => Nat.ofDigitChars 10 version.toList 0

@[simp] theorem versionNumber_repr (n : Nat) : versionNumber (some n.repr) = n := by
  show Nat.ofDigitChars 10 n.repr.toList 0 = n
  rw [Nat.toList_repr, Nat.ofDigitChars_ten_toDigits]

namespace Store

/-- The store after an event. -/
def apply (s : Store) : StoreEvent → Store
  | .request r => (serve r s).2
  | .insert server => s.insert server
  | .conflictNext name => s.conflictNext name

/-- The store after the events, in order. -/
def after (s : Store) (events : List StoreEvent) : Store := events.foldl apply s

@[simp] theorem after_nil (s : Store) : s.after [] = s := rfl

@[simp] theorem after_cons (s : Store) (e : StoreEvent) (events : List StoreEvent) :
    s.after (e :: events) = (s.apply e).after events := rfl

@[simp] theorem after_append (s : Store) (events rest : List StoreEvent) :
    s.after (events ++ rest) = (s.after events).after rest :=
  List.foldl_append

/-- The name under which an event puts a record in, or writes to one with success. -/
def touched? (s : Store) : StoreEvent → Option String
  | .request r => if (serve r s).1.isOk then r.target? else none
  | .insert server => some server.name
  | .conflictNext _ => none

/-- The names of the records put in or written to in a history, each with the version it got. -/
def log (s : Store) : List StoreEvent → List (String × Option String)
  | [] => []
  | e :: rest =>
    (s.touched? e).toList.map (fun name => (name, ((s.apply e).get name).bind Server.version?)) ++
      (s.apply e).log rest

/-- The answer to the request has `server`, the record called `name`. -/
def Reads (s : Store) (name : String) (server : Server) : StoreRequest → Prop
  | .get n => n = name ∧ (serve (.get n) s).1 = .ok (some server)
  | .list =>
    server.name = name ∧ ∃ servers : List Server, (serve .list s).1 = .ok servers ∧ server ∈ servers
  | .updatePowerState .. | .updateStatus .. => False

/-- Records are under their own names, at versions given out. -/
def Numbered (s : Store) : Prop :=
  ∀ name server, s.get name = some server →
    server.name = name ∧ 0 < versionNumber server.version? ∧
      versionNumber server.version? ≤ s.lastVersion

variable {s : Store}

/-- The records of a store are listed under their own names. -/
theorem names_list (h : s.Numbered) : s.list.map Server.name = s.names := by
  unfold list names SortedMap.values SortedMap.keys
  rw [List.map_map]
  refine List.map_congr_left fun e he => ?_
  exact (h e.1 e.2 (SortedMap.get?_of_mem he)).1

theorem Numbered.list_sorted (h : s.Numbered) : (s.list.map Server.name).Pairwise (· < ·) := by
  rw [names_list h]
  exact s.records.keys_pairwise

/-! ## One event -/

/-- What a write that keeps names does, in two cases. -/
theorem write_touch (h : s.Numbered) (name : String) (expected : Option String)
    (change : Server → Server) (hname : ∀ server, (change server).name = server.name) :
    -- It is refused.
    (¬ (s.write name expected change).1.isOk ∧
      s.lastVersion ≤ (s.write name expected change).2.lastVersion ∧
      ∀ n, (s.write name expected change).2.get n = s.get n) ∨
    -- It puts the changed record in.
    (∃ server : Server, (s.write name expected change).1.isOk ∧ name = server.name ∧
      (s.write name expected change).2.lastVersion = s.lastVersion + 1 ∧
      ∀ n, (s.write name expected change).2.get n =
        if n = server.name then some (server.withVersion s.nextVersion) else s.get n) := by
  rcases write_of s name expected change with
    ⟨-, hw⟩ | ⟨-, -, hw⟩ | ⟨-, _, -, -, -, hw⟩ | ⟨-, server, hg, -, hw⟩ <;> rw [hw]
  · exact .inl ⟨Bool.false_ne_true, Nat.le_refl _, get_spend s name⟩
  · exact .inl ⟨Bool.false_ne_true, Nat.le_succ _, get_skip s⟩
  · exact .inl ⟨Bool.false_ne_true, Nat.le_succ _, get_skip s⟩
  · have hn : (change server).name = name := (hname server).trans (h name server hg).1
    refine .inr ⟨change server, rfl, hn.symm, rfl, ?_⟩
    intro n
    rw [hn, get_commit]

/-- What an event does, in two cases. -/
theorem apply_of (h : s.Numbered) (e : StoreEvent) :
    -- No record is touched.
    (s.touched? e = none ∧ s.lastVersion ≤ (s.apply e).lastVersion ∧
      ∀ n, (s.apply e).get n = s.get n) ∨
    -- One record is put in, at the next version.
    (∃ server : Server, s.touched? e = some server.name ∧
      (s.apply e).lastVersion = s.lastVersion + 1 ∧
      ∀ n, (s.apply e).get n =
        if n = server.name then some (server.withVersion s.nextVersion) else s.get n) := by
  cases e with
  | conflictNext name => exact .inl ⟨rfl, Nat.le_refl _, get_conflictNext s name⟩
  | insert server => exact .inr ⟨server, rfl, rfl, get_insert s server⟩
  | request r =>
    cases r with
    | get | list => exact .inl ⟨rfl, Nat.le_refl _, fun n => rfl⟩
    | updatePowerState name version state =>
      rcases write_touch h name version (·.withPowerState state) (fun _ => rfl) with
        ⟨hno, hle, hget⟩ | ⟨server, hok, hn, hlast, hget⟩
      · exact .inl ⟨if_neg hno, hle, hget⟩
      · exact .inr ⟨server, hn ▸ if_pos hok, hlast, hget⟩
    | updateStatus name version status =>
      rcases write_touch h name version (·.withStatus status) (fun _ => rfl) with
        ⟨hno, hle, hget⟩ | ⟨server, hok, hn, hlast, hget⟩
      · exact .inl ⟨if_neg hno, hle, hget⟩
      · exact .inr ⟨server, hn ▸ if_pos hok, hlast, hget⟩

theorem Numbered.apply (h : s.Numbered) (e : StoreEvent) : (s.apply e).Numbered := by
  intro n server hg
  rcases apply_of h e with ⟨-, hle, hget⟩ | ⟨put, -, hlast, hget⟩ <;> rw [hget] at hg
  · obtain ⟨hname, hpos, hnum⟩ := h n server hg
    exact ⟨hname, hpos, Nat.le_trans hnum hle⟩
  · rw [hlast]
    split at hg
    · rename_i hn
      cases hg
      have hnum : versionNumber (put.withVersion s.nextVersion).version? = s.lastVersion + 1 :=
        versionNumber_repr _
      rw [hnum]
      exact ⟨hn.symm, Nat.succ_pos _, Nat.le_refl _⟩
    · obtain ⟨hname, hpos, hnum⟩ := h n server hg
      exact ⟨hname, hpos, Nat.le_succ_of_le hnum⟩

/-! ## Histories -/

theorem numbered_empty : ({} : Store).Numbered := by
  intro n server hg
  cases hg

theorem Numbered.after (h : s.Numbered) (events : List StoreEvent) : (s.after events).Numbered := by
  induction events generalizing s with
  | nil => exact h
  | cons e rest ih => exact ih (h.apply e)

theorem log_append (s : Store) (events rest : List StoreEvent) :
    s.log (events ++ rest) = s.log events ++ (s.after events).log rest := by
  induction events generalizing s with
  | nil => rfl
  | cons e events ih => simp only [List.cons_append, log, ih, after_cons, List.append_assoc]

/-- What an event adds to the log. -/
theorem log_cons_of (h : s.Numbered) (e : StoreEvent) (rest : List StoreEvent) :
    (s.log (e :: rest) = (s.apply e).log rest ∧ s.lastVersion ≤ (s.apply e).lastVersion ∧
      ∀ n, (s.apply e).get n = s.get n) ∨
    ∃ server : Server, s.log (e :: rest) = (server.name, some s.nextVersion) :: (s.apply e).log rest ∧
      (s.apply e).lastVersion = s.lastVersion + 1 ∧
      ∀ n, (s.apply e).get n =
        if n = server.name then some (server.withVersion s.nextVersion) else s.get n := by
  rcases apply_of h e with ⟨htouch, hle, hget⟩ | ⟨server, htouch, hlast, hget⟩
  · refine .inl ⟨?_, hle, hget⟩
    simp only [log, htouch, Option.toList_none, List.map_nil, List.nil_append]
  · refine .inr ⟨server, ?_, hlast, hget⟩
    have hversion : ((s.apply e).get server.name).bind Server.version? = some s.nextVersion := by
      rw [hget, if_pos rfl]
      rfl
    simp only [log, htouch, Option.toList_some, List.map_cons, List.map_nil, List.singleton_append,
      hversion]

/-- Versions are given out in order, above all given out before. -/
theorem log_ordered (h : s.Numbered) (events : List StoreEvent) :
    (∀ v ∈ (s.log events).map Prod.snd, s.lastVersion < versionNumber v) ∧
      ((s.log events).map Prod.snd).Pairwise (fun a b => versionNumber a < versionNumber b) := by
  induction events generalizing s with
  | nil => exact ⟨fun v hv => (List.not_mem_nil hv).elim, .nil⟩
  | cons e rest ih =>
    obtain ⟨hlt, hpair⟩ := ih (h.apply e)
    rcases log_cons_of h e rest with ⟨hlog, hle, -⟩ | ⟨server, hlog, hlast, -⟩ <;> rw [hlog]
    · exact ⟨fun v hv => Nat.lt_of_le_of_lt hle (hlt v hv), hpair⟩
    · have hnext : versionNumber (some s.nextVersion) = s.lastVersion + 1 := versionNumber_repr _
      rw [hlast] at hlt
      constructor
      · intro v hv
        rcases List.mem_cons.1 hv with rfl | hv
        · exact hnext ▸ Nat.lt_succ_self _
        · exact Nat.lt_of_succ_lt (hlt v hv)
      · exact List.pairwise_cons.2 ⟨fun v hv => hnext ▸ hlt v hv, hpair⟩

/-- The record found after a history was there before and not touched, or it got its version in
the history. -/
theorem get_after (h : s.Numbered) {events : List StoreEvent} {name : String} {server : Server}
    (hg : (s.after events).get name = some server) :
    (name ∉ (s.log events).map Prod.fst ∧ s.get name = some server) ∨
      server.version? ∈ (s.log events).map Prod.snd := by
  induction events generalizing s with
  | nil => exact .inl ⟨List.not_mem_nil, hg⟩
  | cons e rest ih =>
    rcases log_cons_of h e rest with ⟨hlog, -, hget⟩ | ⟨put, hlog, -, hget⟩ <;> rw [hlog]
    · rw [← hget]
      exact ih (h.apply e) hg
    · rcases ih (h.apply e) hg with ⟨hrest, hg'⟩ | hmem
      · rw [hget] at hg'
        split at hg'
        · cases hg'
          exact .inr List.mem_cons_self
        · rename_i hne
          exact .inl ⟨List.not_mem_cons_of_ne_of_not_mem hne hrest, hg'⟩
      · exact .inr (List.mem_cons_of_mem _ hmem)

/-- A record found after a history at the version of an earlier one is that record. -/
theorem get_eq_of_version (h : s.Numbered) {events : List StoreEvent} {name : String}
    {server found : Server} (hg : s.get name = some server)
    (hfound : (s.after events).get name = some found) (hv : found.version? = server.version?) :
    found = server := by
  rcases get_after h hfound with ⟨-, hsame⟩ | hmem
  · exact Option.some.inj (hsame.symm.trans hg)
  · have hlt := (log_ordered h events).1 _ hmem
    rw [hv] at hlt
    exact absurd (h name server hg).2.2 (Nat.not_le.2 hlt)

theorem Reads.get_eq (h : s.Numbered) {name : String} {server : Server} {r : StoreRequest}
    (hr : s.Reads name server r) : s.get name = some server := by
  cases r with
  | get n =>
    obtain ⟨rfl, hr⟩ := hr
    exact Except.ok.inj hr
  | list =>
    obtain ⟨hname, servers, hlist, hm⟩ := hr
    cases hlist
    obtain ⟨⟨n, _⟩, hentry, rfl⟩ := List.mem_map.1 hm
    have hg := SortedMap.get?_of_mem hentry
    exact ((h n _ hg).1.symm.trans hname) ▸ hg
  | updatePowerState | updateStatus => cases hr

/-- A write that goes through found the record at the version that it names. -/
theorem serve_write_ok {r : StoreRequest} {name : String} (ht : r.target? = some name)
    (hok : (serve r s).1.isOk) :
    ∃ server, s.get name = some server ∧ (r.expected?.isSome → server.version? = r.expected?) := by
  cases r with
  | get | list => cases ht
  | updatePowerState | updateStatus =>
    cases ht
    obtain ⟨server, hg, hv, -⟩ := write_ok hok
    exact ⟨server, hg, hv⟩

/-! ## Main theorem -/

/-- A write at the version of an earlier read that goes through finds the record as it was read, and
nobody touched it in between. A version is given out once in a whole history, so the version of a
record that was ever stored stands once in the log. -/
theorem no_lost_update :
    (∀ (before between : List StoreEvent) (read write : StoreRequest) (name : String) (server : Server),
      let seen := after {} before
      let now := after {} (before ++ .request read :: between)
      seen.Reads name server read → write.target? = some name → write.expected? = server.version? →
      (serve write now).1.isOk →
      name ∉ (seen.log (.request read :: between)).map Prod.fst ∧ now.get name = some server) ∧
    ∀ (before rest : List StoreEvent),
      let versions := (log {} (before ++ rest)).map Prod.snd
      versions.Nodup ∧
      ∀ name server, (after {} before).get name = some server → versions.count server.version? = 1 := by
  constructor
  · intro before between read write name server seen now hread ht hv hok
    have hseen : seen.Numbered := numbered_empty.after before
    have hg := hread.get_eq hseen
    obtain ⟨-, hpos, hle⟩ := hseen name server hg
    obtain ⟨found, hfound, hversion⟩ := serve_write_ok ht hok
    have hsome : write.expected?.isSome := by
      rw [hv]
      cases hs : server.version? with
      | none => rw [hs] at hpos; cases hpos
      | some => rfl
    have hsame : found.version? = server.version? := (hversion hsome).trans hv
    simp only [now, after_append] at hfound ⊢
    rcases get_after hseen hfound with ⟨huntouched, hfound'⟩ | hmem
    · rw [hg] at hfound'
      cases hfound'
      exact ⟨huntouched, hfound⟩
    · -- A version given out since the read is above that of the read.
      rw [hsame] at hmem
      have hlt := (log_ordered hseen _).1 _ hmem
      exact absurd hle (Nat.not_le.2 hlt)
  · intro before rest versions
    have hpair := (log_ordered numbered_empty (before ++ rest)).2
    have hnodup : versions.Nodup := hpair.imp fun h he => by
      rw [he] at h
      exact Nat.lt_irrefl _ h
    refine ⟨hnodup, fun name server hg => ?_⟩
    have hmem : server.version? ∈ versions := by
      rcases get_after numbered_empty hg with ⟨-, hnone⟩ | hmem
      · cases hnone
      · simp only [versions, log_append, List.map_append]
        exact List.mem_append_left _ hmem
    rw [hnodup.count, if_pos hmem]

/-- Another record and two writes refused in between do not keep a write from going through. -/
theorem no_lost_update_refused :
    let m1 : Server := { metadata := { name := some "m1" }, spec := {} }
    let m2 : Server := { metadata := { name := some "m2" }, spec := {} }
    let before := [.insert m1]
    let between : List StoreEvent :=
      [.conflictNext "m1", .request (.updateStatus "m1" none {}),
        .request (.updatePowerState "m1" (some "7") .off), .insert m2]
    let now := after {} (before ++ .request .list :: between)
    (serve (.updatePowerState "m1" (some "1") .on) now).1.isOk ∧
      now.get "m1" = some (m1.withVersion "1") ∧
      ((log {} (before ++ between)).map Prod.snd).count (some "1") = 1 := by
  intro m1 m2 before between now
  have hread : (after {} before).Reads "m1" (m1.withVersion "1") .list :=
    ⟨rfl, [m1.withVersion "1"], rfl, List.mem_singleton_self _⟩
  have hok : (serve (.updatePowerState "m1" (some "1") .on) now).1.isOk := by decide +kernel
  exact ⟨hok, (no_lost_update.1 before between .list _ "m1" (m1.withVersion "1") hread rfl rfl hok).2,
    (no_lost_update.2 before between).2 "m1" (m1.withVersion "1") rfl⟩

end Store

end MetalPool
