import MetalPool.Proofs.Json.Fields
import MetalPool.Proofs.Store.History
import MetalPool.Proofs.Store.Requests
import MetalPool.Proofs.Text.ByteOrder
import MetalPool.Store.Cluster
/-!
# The order of a listing

A cluster may send the items of a list in any order; they are sorted by name.
Records in memory are kept by name, in whatever order they were put in. A list
of records in the order of distinct names is settled by which records there are
(`eq_of_names_sorted`), so all of these listings are the same one.
-/

namespace MetalPool

variable {servers servers' : List Server}

/-- There is one way to list records in the order of their names. -/
theorem eq_of_names_sorted (hp : servers'.Perm servers)
    (h' : (servers'.map Server.name).Pairwise (· < ·))
    (h : (servers.map Server.name).Pairwise (· < ·)) : servers' = servers := by
  refine List.Perm.eq_of_pairwise ?_ (List.pairwise_map.1 h') (List.pairwise_map.1 h) hp
  intro a b _ _ hab hba
  exact absurd hba (String.lt_asymm hab)

/-! ## Records put in one by one -/

namespace Store

/-- Records are put in under their names, whatever versions they get. -/
theorem records_inserts (servers : List Server) (s : Store) :
    (servers.foldl insert s).records.map Server.unversioned =
      (servers.map fun server => (server.name, server.unversioned)).foldl
        (fun m e => m.insert e.1 e.2) (s.records.map Server.unversioned) := by
  induction servers generalizing s with
  | nil => rfl
  | cons server rest ih =>
    have hinsert : (s.insert server).records.map Server.unversioned =
        (s.records.map Server.unversioned).insert server.name server.unversioned :=
      SortedMap.map_insert ..
    rw [List.foldl_cons, ih, hinsert]
    rfl

/-- Records put into a store of none are listed by name. -/
theorem list_inserts {s : Store} (hs : s.list = [])
    (hsorted : (servers.map Server.name).Pairwise (· < ·)) (hp : servers'.Perm servers) :
    (servers'.foldl insert s).list.map Server.unversioned = servers.map Server.unversioned := by
  have hempty : s.records = .empty := SortedMap.ext (List.map_eq_nil_iff.1 hs)
  let sorted : SortedMap Server :=
    ⟨servers.map fun server => (server.name, server.unversioned),
      List.pairwise_map.2 (List.pairwise_map.1 hsorted)⟩
  have hrecords : (servers'.foldl insert s).records.map Server.unversioned = sorted := by
    rw [records_inserts, hempty]
    exact SortedMap.ofList_of_perm (hp.map _)
  have hvalues := congrArg SortedMap.values hrecords
  rw [SortedMap.values_map] at hvalues
  refine hvalues.trans ?_
  show (servers.map fun server => (server.name, server.unversioned)).map Prod.snd = _
  rw [List.map_map]
  rfl

end Store

/-! ## Items of an answer -/

namespace Cluster

theorem sortByName_perm (servers : List Server) : (sortByName servers).Perm servers :=
  List.mergeSort_perm ..

theorem sortByName_sorted (hn : (servers.map Server.name).Nodup) :
    ((sortByName servers).map Server.name).Pairwise (· < ·) := by
  have hle : (sortByName servers).Pairwise fun a b => decide (a.name ≤ b.name) = true := by
    refine List.pairwise_mergeSort (fun a b c hab hbc => ?_) (fun a b => ?_) servers
    · simp only [decide_eq_true_eq] at hab hbc ⊢
      exact String.le_trans hab hbc
    · simpa using String.le_total a.name b.name
  have hne : ((sortByName servers).map Server.name).Nodup :=
    ((sortByName_perm servers).map _).nodup_iff.2 hn
  rw [List.pairwise_map]
  refine hle.imp₂ (fun a b hab hne => ?_) (List.pairwise_map.1 hne)
  exact SortedMap.lt_of_not_lt_of_ne (fun hba => String.not_lt.2 (of_decide_eq_true hab) hba) hne.symm

theorem sortByName_eq_of_perm (hn : (servers.map Server.name).Nodup) (hp : servers'.Perm servers) :
    sortByName servers' = sortByName servers :=
  eq_of_names_sorted ((sortByName_perm servers').trans (hp.trans (sortByName_perm servers).symm))
    (sortByName_sorted ((hp.map _).nodup_iff.2 hn)) (sortByName_sorted hn)

/-- The same list with its items in another order. -/
inductive Reordered : Json → Json → Prop where
  | items (before after : List (String × Json)) {items items' : List Json} (h : items'.Perm items) :
    Reordered (.obj (before ++ ("items", .arr items) :: after))
      (.obj (before ++ ("items", .arr items') :: after))

/-- What is read of items does not depend on their order. -/
theorem mapM_perm {α β : Type} {read : α → Option β} {items items' : List α} (hp : items'.Perm items) :
    ∀ {values}, items.mapM read = some values →
      ∃ values', items'.mapM read = some values' ∧ values'.Perm values := by
  induction hp with
  | nil => exact fun h => ⟨_, h, .refl _⟩
  | cons a _ ih =>
    intro values h
    simp only [List.mapM_cons, Option.bind_eq_bind, Option.bind_eq_some_iff, Option.pure_def] at h ⊢
    obtain ⟨v, hv, vs, hvs, ⟨⟩⟩ := h
    obtain ⟨vs', hvs', hp'⟩ := ih hvs
    exact ⟨v :: vs', ⟨v, hv, vs', hvs', rfl⟩, hp'.cons v⟩
  | swap a b rest =>
    intro values h
    simp only [List.mapM_cons, Option.bind_eq_bind, Option.bind_eq_some_iff, Option.pure_def] at h ⊢
    obtain ⟨v, hv, _, ⟨w, hw, vs, hvs, ⟨⟩⟩, ⟨⟩⟩ := h
    exact ⟨w :: v :: vs, ⟨w, hw, _, ⟨v, hv, vs, hvs, rfl⟩, rfl⟩, .swap ..⟩
  | trans _ _ ih ih' =>
    intro values h
    obtain ⟨middle, hm, hp⟩ := ih' h
    obtain ⟨values', hv, hp'⟩ := ih hm
    exact ⟨values', hv, hp'.trans hp⟩

/-- A list with an array of items has each item read, and all else is as good for any items. -/
theorem itemsOfJson?_arr (before after : List (String × Json)) (items : List Json) :
    itemsOfJson? (.obj (before ++ ("items", .arr items) :: after)) =
      if (itemsOfJson? (.obj (before ++ ("items", .arr []) :: after))).isSome then
        items.mapM Server.ofJson? else none := by
  -- What is asked of the other members does not depend on the items.
  have hcount (name : String) (j : Json) : (before ++ ("items", j) :: after).countP (·.1 == name) =
      (before ++ ("items", Json.null) :: after).countP (·.1 == name) := by
    simp [List.countP_append, List.countP_cons]
  have hmetadata (j : Json) : (before ++ ("items", j) :: after).lookup "metadata" =
      (before ++ ("items", Json.null) :: after).lookup "metadata" := by
    simp [List.lookup_append, List.lookup_cons]
  have hothers (j : Json) : areOthersClear (before ++ ("items", j) :: after) =
      areOthersClear (before ++ ("items", Json.null) :: after) := by
    simp [areOthersClear]
  simp only [itemsOfJson?, Json.fields?, hcount, List.map_cons, List.map_nil, hmetadata, hothers]
  by_cases hall : (["metadata", "items"].all fun name =>
      (before ++ ("items", Json.null) :: after).countP (·.1 == name) ≤ 1) = true
  · have hbefore : before.lookup "items" = none := by
      have hone : (before ++ ("items", Json.null) :: after).countP (·.1 == "items") ≤ 1 := by
        simpa using List.all_eq_true.1 hall "items" (by simp)
      rw [List.countP_append, List.countP_cons] at hone
      have hnone : before.countP (·.1 == "items") = 0 := by simp at hone; omega
      rw [List.lookup_eq_none_iff]
      intro m hm
      have hm' := List.countP_eq_zero.1 hnone m hm
      rw [beq_iff_eq] at hm'
      simpa using Ne.symm hm'
    have hitems (j : Json) : (before ++ ("items", j) :: after).lookup "items" = some j := by
      rw [List.lookup_append, hbefore]
      simp
    simp only [if_pos hall, hitems]
    split <;> simp
  · simp only [if_neg hall]
    rfl

theorem itemsOfJson?_reordered {j j' : Json} (h : Reordered j j') (hj : itemsOfJson? j = some servers) :
    ∃ servers', itemsOfJson? j' = some servers' ∧ servers'.Perm servers := by
  obtain ⟨before, after, hp⟩ := h
  rw [itemsOfJson?_arr] at hj ⊢
  split at hj
  · rename_i hsome
    rw [if_pos hsome]
    exact mapM_perm hp hj
  · cases hj

/-- The answer holds the list `j`, whose items are read as the records, in this order. -/
structure Lists (reply : ApiReply) (j : Json) (servers : List Server) : Prop where
  body_eq : ∃ body, readReply reply = .ok body ∧ Json.parse? body = some j
  items_eq : itemsOfJson? j = some servers

theorem answer_list (reply : ApiReply) :
    answer .list reply = ((readReply reply).mapError errorOfList).bind readList := by
  show ofReply .list reply = _
  simp only [ofReply]
  cases readReply reply <;> rfl

theorem Lists.answer_eq {reply : ApiReply} {j : Json} (h : Lists reply j servers) :
    answer .list reply = .ok (sortByName servers) := by
  obtain ⟨⟨body, hbody, hparse⟩, hitems⟩ := h
  rw [answer_list, hbody]
  show readList body = _
  unfold readList
  rw [hparse, Option.bind_some, hitems]
  rfl

end Cluster

end MetalPool
