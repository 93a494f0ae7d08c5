import Mathlib.Data.Fintype.Basic
import MetalPool.Proofs.Store.Crowd
/-!
# Growing the pool from many sides

A call that grows the pool lists the records once and then turns machines on one
by one, each at the version it was listed with. Another call may have turned on
the same machine since; then the version is another one and the write is
refused. So a call is careful whatever others do in between
(`grows_increaseSize`), and calls side by side never turn on one machine twice
(`growth_adds_up`).
-/

namespace MetalPool

open Store

/-- A session of the pool keeps to its part in a crowd. -/
def PoolSession.Grows {α : Type} (post : Nat → Store → Except PoolError α → Prop)
    (session : PoolSession α) (n : Nat) (s : Store) : Prop :=
  Session.Grows post session.run n s

namespace Pool

/-- All of `wanted` machines were turned on, or the store refused to. Before there were `n` turned on, and
after it `k`. -/
def Turned {α : Type} (wanted n k : Nat) : Except PoolError α → Prop
  | .ok _ => k = n + wanted
  | .error e => ∃ refusal, e = .store refusal

/-- A call reports how many machines it turned on: as many as requested, or how many there were. -/
def Accounts (requested turnedOn : Nat) : Except PoolError Unit → Prop
  | .ok _ => turnedOn = requested
  | .error (.insufficientCapacity r provisioned) =>
    r = requested ∧ provisioned = turnedOn ∧ turnedOn < requested
  | .error _ => True

variable {α β : Type} {n : Nat} {s seen : Store} {post : Nat → Store → Except PoolError α → Prop}

theorem grows_return {a : α} (h : post n s (.ok a)) : (pure a : PoolSession α).Grows post n s := h

theorem grows_throw {e : PoolError} (h : post n s (.error e)) : (throw e : PoolSession α).Grows post n s :=
  h

theorem grows_seq {mid : Nat → Store → Except PoolError β → Prop} {session : PoolSession β}
    {next : β → PoolSession α} (h : session.Grows mid n s)
    (hok : ∀ k s a, mid k s (.ok a) → (next a).Grows post k s)
    (herror : ∀ k s e, mid k s (.error e) → post k s (.error e)) :
    (session >>= next).Grows post n s := by
  refine Session.grows_bind h fun k s result hm => ?_
  cases result with
  | ok a => exact hok k s a hm
  | error e => exact herror k s e hm

theorem grows_ask {r : StoreRequest} {post : Nat → Store → Except PoolError r.Answer → Prop}
    (h : ∀ later, s.Leads later → r.Careful later ∧
      post (n + (r.turnsOn? later).toList.length) (Store.serve r later).2
        ((Store.serve r later).1.mapError .store)) : (ask r).Grows post n s := by
  intro later hl
  obtain ⟨hcareful, hpost⟩ := h later hl
  refine ⟨hcareful, ?_⟩
  generalize (Store.serve r later).1 = answer at hpost ⊢
  cases answer <;> exact hpost

/-! ## One call -/

/-- Turning on a machine as it was seen. -/
theorem grows_turnOn {server : Server} (hseen : seen.Numbered)
    (hg : seen.get server.name = some server) (hoff : server.spec.desired = .off)
    (hl : seen.Leads s) :
    (ask (.updatePowerState server.name server.version? .on)).Grows
      (fun k later result => seen.Leads later ∧ Turned 1 n k result) n s := by
  refine grows_ask fun later hlater => ?_
  have hleads := hl.trans hlater
  refine ⟨⟨rfl, hseen.version_isSome hg, fun found hfound hv => ?_⟩, ?_⟩
  · -- The version is that of the listed record, so the record found is still that one.
    rw [hleads.get_eq hseen hg hfound hv]
    exact hoff
  · refine ⟨hleads.trans (leads_serve later _), ?_⟩
    have hturns : (StoreRequest.updatePowerState server.name server.version? .on).turnsOn? later =
        if (later.updatePowerState server.name server.version? .on).1.isOk then some server.name
        else none := rfl
    rw [hturns, serve]
    cases (later.updatePowerState server.name server.version? .on).1 with
    | ok => rfl
    | error e => exact ⟨e, rfl⟩

theorem grows_setAll (hseen : seen.Numbered) {servers : List Server}
    (hs : ∀ server ∈ servers, seen.get server.name = some server ∧ server.spec.desired = .off)
    (hl : seen.Leads s) (n : Nat) :
    (setAll .on servers).Grows
      (fun k _ result => Turned servers.length n k result ∧
        ∀ count, result = .ok count → count = servers.length) n s := by
  induction servers generalizing n s with
  | nil => exact grows_return ⟨rfl, fun count he => (Except.ok.inj he).symm⟩
  | cons server rest ih =>
    obtain ⟨hg, hoff⟩ := hs server List.mem_cons_self
    refine grows_seq (grows_turnOn hseen hg hoff hl) ?_ fun k later e he => ⟨he.2, nofun⟩
    rintro k later a ⟨hleads, rfl⟩
    refine grows_seq (ih (fun t ht => hs t (List.mem_cons_of_mem _ ht)) hleads (n + 1)) ?_
      fun k later e he => ⟨he.1, nofun⟩
    rintro k later count ⟨rfl, hcount⟩
    obtain rfl := hcount count rfl
    refine grows_return ⟨?_, fun count he => (Except.ok.inj he).symm⟩
    show n + 1 + rest.length = n + (rest.length + 1)
    omega

/-- All the machines that a call finds off are turned on, unless the store refuses. -/
theorem grows_flip (hs : s.Numbered) (wanted : Nat) :
    (flip wanted .off .on).Grows
      (fun k _ result => ∃ found, found ≤ wanted ∧ Turned found 0 k result ∧
        ∀ count, result = .ok count → count = found) 0 s := by
  have hlist : (ask .list).Grows
      (fun k later result => k = 0 ∧ later.Numbered ∧ result = .ok later.list) 0 s :=
    grows_ask fun later hl => ⟨trivial, rfl, hl.numbered hs, rfl⟩
  refine grows_seq hlist ?_ ?_
  · rintro k later servers ⟨rfl, hnumbered, he⟩
    cases he
    have hcandidates : ∀ server ∈ candidates .off wanted later.list,
        later.get server.name = some server ∧ server.spec.desired = .off := by
      intro server hm
      obtain ⟨hm, hoff⟩ := List.mem_filter.1 (List.mem_of_mem_take hm)
      have hread : later.Reads server.name server .list := ⟨rfl, later.list, rfl, hm⟩
      exact ⟨hread.get_eq hnumbered, of_decide_eq_true hoff⟩
    have hset := grows_setAll hnumbered hcandidates (.refl later) 0
    exact hset.mono fun k s result h => ⟨_, List.length_take_le .., h⟩
  · rintro k later e ⟨-, -, he⟩
    cases he

theorem grows_increaseSize (hs : s.Numbered) (delta : Int32) :
    (increaseSize groupId delta).Grows (fun k _ result => Accounts delta.toInt.toNat k result) 0 s := by
  have hcheck : (checkGroup groupId).Grows
      (fun k later result => k = 0 ∧ later = s ∧ result = .ok ()) 0 s := by
    unfold checkGroup
    rw [if_pos rfl]
    exact grows_return ⟨rfl, rfl, rfl⟩
  refine grows_seq hcheck ?_ ?_
  · rintro k later a ⟨rfl, rfl, -⟩
    by_cases hd : delta ≤ 0
    · rw [if_pos hd]
      refine grows_return ?_
      show 0 = delta.toInt.toNat
      have := Int32.le_iff_toInt_le.1 hd
      rw [Int32.toInt_zero] at this
      omega
    · rw [if_neg hd]
      refine grows_seq (grows_flip hs delta.toInt.toNat) ?_ ?_
      · rintro k later provisioned ⟨found, hle, hk, hcount⟩
        obtain rfl := hcount provisioned rfl
        obtain rfl : k = 0 + provisioned := hk
        rw [Nat.zero_add]
        by_cases hlt : provisioned < delta.toInt.toNat
        · rw [if_pos hlt]
          exact grows_throw ⟨rfl, rfl, hlt⟩
        · rw [if_neg hlt]
          exact grows_return (by show provisioned = delta.toInt.toNat; omega)
      · rintro k later e ⟨found, -, ⟨refusal, rfl⟩, -⟩
        trivial
  · rintro k later e ⟨-, -, he⟩
    cases he

/-! ## Calls side by side -/

/-- Calls that grow the pool side by side, each by its delta. -/
def growers {ι : Type} (deltas : ι → Int32) (store : Store) : Crowd ι (Except PoolError Unit) where
  session i := (increaseSize groupId (deltas i)).run
  store := store

theorem targetSize_run (s : Store) :
    ((targetSize groupId).run.run s).1 = .ok (s.list.countP isRunning) := by
  unfold targetSize checkGroup
  rw [if_pos rfl]
  rfl

/-- Any number of calls grow the pool, each by a delta of its own, and their requests reach the store in
any order; nobody else writes, but any write may be refused. Then at every moment:
* no record is turned on by two calls, or by one call twice, and what was turned on is on;
* a call that ended well turned on as many machines as its delta says, none if the delta is not
  positive, and one that did not find enough as many as it reports;
* the target size is what it was at the start and all that the calls turned on. -/
theorem growth_adds_up {ι : Type} [Fintype ι] [DecidableEq ι] (before : List StoreEvent)
    (deltas : ι → Int32) (moves : List (Crowd.Move ι)) :
    let start := growers deltas (Store.after {} before)
    let last := start.after moves
    (∀ i j, i ≠ j → (start.turnedOnBy i moves).Disjoint (start.turnedOnBy j moves)) ∧
    (∀ i, (start.turnedOnBy i moves).Nodup ∧
      (∀ name ∈ start.turnedOnBy i moves,
        ∃ server, last.store.get name = some server ∧ isRunning server) ∧
      (last.result? i = some (.ok ()) →
        (start.turnedOnBy i moves).length = (deltas i).toInt.toNat) ∧
      ∀ requested provisioned,
        last.result? i = some (.error (.insufficientCapacity requested provisioned)) →
        requested = (deltas i).toInt.toNat ∧ (start.turnedOnBy i moves).length = provisioned) ∧
    ∃ size, ((targetSize groupId).run.run start.store).1 = .ok size ∧
      ((targetSize groupId).run.run last.store).1 =
        .ok (size + ∑ i, (start.turnedOnBy i moves).length) := by
  intro start last
  have hnumbered : start.store.Numbered := numbered_empty.after before
  have hsound : last.Sound (fun i k _ result => Accounts (deltas i).toInt.toNat k result)
      (start.store.list.countP isRunning) (start.turnedOn moves) :=
    (Crowd.sound_start hnumbered fun i => grows_increaseSize hnumbered (deltas i)).after moves
  refine ⟨fun i j hij => Crowd.disjoint_namesOf hsound.tally.nodup hij, fun i => ?_, ?_⟩
  · refine ⟨Crowd.nodup_namesOf hsound.tally.nodup i, fun name hm => ?_, fun hdone => ?_,
      fun requested provisioned hdone => ?_⟩
    · exact hsound.tally.running name (Crowd.mem_of_mem_namesOf hm)
    · obtain ⟨s, hcounts⟩ := hsound.post_of_result hdone
      exact hcounts
    · obtain ⟨s, hrequested, hprovisioned, -⟩ := hsound.post_of_result hdone
      exact ⟨hrequested, hprovisioned.symm⟩
  · refine ⟨start.store.list.countP isRunning, targetSize_run _, ?_⟩
    have hsum : ∑ i, (start.turnedOnBy i moves).length = (start.turnedOn moves).length :=
      Crowd.sum_length_namesOf _
    have hsize := hsound.tally.size_eq
    rw [List.length_map] at hsize
    rw [targetSize_run, hsize, hsum]

/-- Three calls on three machines: two of them list the records before any is turned on, and the slower
one is refused the machine that the other took. The third comes later and finds one machine. -/
theorem growth_adds_up_refused :
    let machine (name : String) : Server := { metadata := { name := some name }, spec := {} }
    let store := Store.after {} [.insert (machine "m1"), .insert (machine "m2"), .insert (machine "m3")]
    let deltas : Fin 3 → Int32 := [2, 1, 5].get
    let start := growers deltas store
    let moves : List (Crowd.Move (Fin 3)) :=
      [.request 0, .request 1, .request 0, .request 1, .request 0, .request 2, .request 2]
    start.turnedOnBy 0 moves = ["m1", "m2"] ∧ start.turnedOnBy 1 moves = [] ∧
      start.turnedOnBy 2 moves = ["m3"] ∧
      (start.turnedOnBy 0 moves).Disjoint (start.turnedOnBy 2 moves) ∧
      (start.turnedOnBy 0 moves).length = 2 ∧ (start.turnedOnBy 2 moves).length = 1 ∧
      ∃ size, ((targetSize groupId).run.run store).1 = .ok size ∧
        ((targetSize groupId).run.run (start.after moves).store).1 =
          .ok (size + ∑ i, (start.turnedOnBy i moves).length) := by
  intro machine store deltas start moves
  obtain ⟨hdisjoint, hcalls, hsize⟩ := growth_adds_up
    [.insert (machine "m1"), .insert (machine "m2"), .insert (machine "m3")] deltas moves
  exact ⟨by decide +kernel, by decide +kernel, by decide +kernel, hdisjoint 0 2 (by decide),
    (hcalls 0).2.2.1 (by decide +kernel), ((hcalls 2).2.2.2 5 1 (by decide +kernel)).2, hsize⟩

end Pool

end MetalPool
