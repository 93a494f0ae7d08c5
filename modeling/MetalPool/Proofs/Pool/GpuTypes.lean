import Mathlib.Data.List.Nodup
import MetalPool.Proofs.Pool.Runs
import MetalPool.Proofs.Store.Origin
import MetalPool.Proofs.Wire.Calls
/-!
# Kinds of GPU and how many there are

The pool counts its records by the label that names a kind of GPU, and sends
each count packed. A fold over the labels counts them (`get?_countLabels`), and
what it comes to depends on nothing but which names carry which label
(`gpuTypeCounts_congr`). Of a history only the records put in matter, each by
its name and label (`labels_after`).
-/

namespace MetalPool

open Wire

namespace SortedMap

variable {β : Type}

/-- How many values are of a kind depends on nothing but the names that have one of it. -/
theorem countP_values_congr {m m' : SortedMap β} {p : β → Bool}
    (h : ∀ k, (m'.get? k).any p = (m.get? k).any p) : m'.values.countP p = m.values.countP p := by
  have hsize (m : SortedMap β) : m.values.countP p = ((m.filter fun _ => p).map fun _ => ()).size := by
    rw [values, List.countP_map, List.countP_eq_length_filter, size, map, List.length_map]
    rfl
  have hkind (found : Option β) :
      (found.filter p).map (fun _ => ()) = if found.any p then some () else none := by
    cases found with
    | none => rfl
    | some v => cases hv : p v <;> simp [Option.filter, hv]
  have hnames : (m'.filter fun _ => p).map (fun _ => ()) = (m.filter fun _ => p).map fun _ => () := by
    refine ext_get? fun k => ?_
    rw [get?_map, get?_map, get?_filter, get?_filter, hkind, hkind, h]
  rw [hsize, hsize, hnames]

end SortedMap

namespace Pool

/-! ## Counting labels -/

/-- One more label in the counts. -/
def tally (counts : SortedMap Nat) (label : String) : SortedMap Nat :=
  counts.insert label ((counts.get? label).getD 0 + 1)

/-- The fold adds to each count how often the label occurs; the induction goes through the labels with
any counts so far. -/
theorem get?_foldl_tally (counts : SortedMap Nat) (labels : List String) (label : String) :
    (labels.foldl tally counts).get? label =
      if label ∈ labels then some ((counts.get? label).getD 0 + labels.count label)
      else counts.get? label := by
  induction labels generalizing counts with
  | nil => rfl
  | cons first rest ih =>
    rw [List.foldl_cons, ih, tally, SortedMap.get?_insert]
    by_cases hfirst : label = first
    · subst hfirst
      rw [if_pos rfl, if_pos List.mem_cons_self, List.count_cons_self, Option.getD_some]
      split
      · rw [Nat.add_assoc, Nat.add_comm 1]
      · rename_i hrest
        rw [List.count_eq_zero_of_not_mem hrest]
    · rw [if_neg hfirst, List.count_cons_of_ne (Ne.symm hfirst)]
      simp only [List.mem_cons, hfirst, false_or]

theorem get?_countLabels (labels : List String) (label : String) (n : Nat) :
    (countLabels labels).get? label = some n ↔ 0 < n ∧ n = labels.count label := by
  have hfold := get?_foldl_tally .empty labels label
  rw [show countLabels labels = labels.foldl tally .empty from rfl, hfold]
  split
  · rename_i hmem
    have := List.count_pos_iff.2 hmem
    simp only [SortedMap.get?_empty, Option.getD_none, Option.some.injEq]
    omega
  · rename_i hnot
    rw [List.count_eq_zero_of_not_mem hnot]
    simp only [SortedMap.get?_empty, reduceCtorEq, false_iff]
    omega

theorem sumOf_foldl_tally (counts : SortedMap Nat) (labels : List String) :
    (labels.foldl tally counts).sumOf id = counts.sumOf id + labels.length := by
  induction labels generalizing counts with
  | nil => rfl
  | cons first rest ih =>
    have hone : (tally counts first).sumOf id = counts.sumOf id + 1 := by
      have hinsert := SortedMap.sumOf_insert id counts first ((counts.get? first).getD 0 + 1)
      have hold : (counts.get? first).elim 0 id = (counts.get? first).getD 0 := by
        cases counts.get? first <;> rfl
      rw [hold] at hinsert
      rw [tally]
      simp only [id] at hinsert
      omega
    rw [List.foldl_cons, ih, hone, List.length_cons]
    omega

/-- Equal counts of every label are equal counts. -/
theorem countLabels_congr {labels labels' : List String}
    (h : ∀ label, labels'.count label = labels.count label) : countLabels labels' = countLabels labels := by
  refine SortedMap.ext_get? fun label => Option.ext fun n => ?_
  rw [get?_countLabels, get?_countLabels, h]

end Pool

/-! ## Labels in a store -/

namespace Store

/-- The label of each record under its name. -/
def labels (s : Store) : SortedMap (Option String) := s.records.map Server.gpuType?

/-- The records that are put in, each by its name and label. -/
def labelled (events : List StoreEvent) : List (String × Option String) :=
  (events.filterMap StoreEvent.inserted?).map fun server => (server.name, server.gpuType?)

theorem labels_get (s : Store) (name : String) : s.labels.get? name = (s.get name).map Server.gpuType? :=
  SortedMap.get?_map ..

/-- A record put in brings its label, and nothing else that happens to records changes one. -/
theorem labels_apply (s : Store) (e : StoreEvent) :
    (s.apply e).labels = (labelled [e]).foldl (fun m e => m.insert e.1 e.2) s.labels := by
  cases hput : e.inserted? with
  | some server =>
    cases e with
    | insert =>
      cases hput
      exact SortedMap.map_insert ..
    | _ => cases hput
  | none =>
    have hnone : labelled [e] = [] := by simp [labelled, hput]
    rw [hnone]
    refine SortedMap.ext_get? fun name => ?_
    rw [List.foldl_nil, labels_get, labels_get]
    rcases touch_of s name e with ⟨-, hsame⟩ | ⟨-, server, rfl, -⟩ | ⟨-, -, server, hg, hwritten⟩
    · rw [hsame]
    · cases hput
    · have hchange : (e.change server).gpuType? = server.gpuType? := by
        cases e with
        | request r => cases r <;> rfl
        | _ => rfl
      rw [hwritten, hg]
      exact congrArg some hchange

theorem labels_after (s : Store) (events : List StoreEvent) :
    (s.after events).labels = (labelled events).foldl (fun m e => m.insert e.1 e.2) s.labels := by
  induction events generalizing s with
  | nil => rfl
  | cons e rest ih =>
    have hcons : labelled (e :: rest) = labelled [e] ++ labelled rest := by
      rw [labelled, ← List.singleton_append, List.filterMap_append, List.map_append]
      rfl
    rw [after_cons, ih, labels_apply, hcons, List.foldl_append]

/-- Records of different names may be put in in any order. -/
theorem labels_after_of_perm (s : Store) {events events' : List StoreEvent}
    (hp : (labelled events').Perm (labelled events)) (hn : ((labelled events').map Prod.fst).Nodup) :
    (s.after events').labels = (s.after events).labels := by
  rw [labels_after, labels_after]
  refine hp.foldl_eq' (fun x hx y hy m => ?_) _
  by_cases hname : x.1 = y.1
  · rw [List.inj_on_of_nodup_map hn hx hy hname]
  · refine SortedMap.ext_get? fun k => ?_
    simp only [SortedMap.get?_insert]
    by_cases hx : k = x.1
    · rw [if_pos hx, if_pos hx, if_neg fun hy => hname (hx.symm.trans hy)]
    · rw [if_neg hx, if_neg hx]

end Store

namespace Pool

/-! ## Calls -/

theorem run_gpuTypeCounts (s : Store) :
    gpuTypeCounts.run.run s = (.ok (countLabels (s.list.filterMap Server.gpuType?)), s) :=
  run_seq_of_ok (run_ask .list s)

theorem serve_availableGpuTypes (s : Store) :
    (serve .availableGpuTypes {}).run s =
      (.ok ⟨(countLabels (s.list.filterMap Server.gpuType?)).map fun n =>
        PackedMessage.ofInt64 (Int64.ofNat n)⟩, s) :=
  run_serve .availableGpuTypes {} s

/-- Stores in which the same names carry the same labels have the same counts. -/
theorem gpuTypeCounts_congr {s s' : Store}
    (h : ∀ name, (s'.get name).bind Server.gpuType? = (s.get name).bind Server.gpuType?) :
    countLabels (s'.list.filterMap Server.gpuType?) = countLabels (s.list.filterMap Server.gpuType?) := by
  have hcarries (label : String) (found : Option Server) :
      found.any (·.gpuType? == some label) = (found.bind Server.gpuType? == some label) := by
    cases found <;> rfl
  refine countLabels_congr fun label => ?_
  rw [List.count_filterMap, List.count_filterMap]
  refine SortedMap.countP_values_congr fun name => ?_
  rw [hcarries, hcarries]
  exact congrArg (· == some label) (h name)

/-! ## Main theorem -/

/-- The pool counts the records under each label that one of them carries, and no other label, without
a change to the store. A remote caller gets the same labels, each with its count packed as a number
of 64 bits; such a number is the count, as long as this is no larger than one can be.

The counts depend on nothing but which names carry which label: after a history of the records,
on the names and labels of those put in, in whatever order if no name occurs twice. -/
theorem gpu_types_counted (s : Store) :
    ∃ (counts : SortedMap Nat) (types : SortedMap PackedMessage),
      gpuTypeCounts.run.run s = (.ok counts, s) ∧
      (serve .availableGpuTypes {}).run s = (.ok ⟨types⟩, s) ∧
      (∀ label n, counts.get? label = some n ↔ 0 < n ∧ n = s.list.countP (·.gpuType? = some label)) ∧
      counts.sumOf id = s.list.countP (·.gpuType?.isSome) ∧
      types.keys = counts.keys ∧
      (∀ label n, counts.get? label = some n → ∃ value number,
        types.get? label = some ⟨"type.googleapis.com/google.protobuf.Int64Value", value⟩ ∧
        int64Codec.decode? value = some number ∧
        number = Int64.ofNat n ∧ (n < 9223372036854775808 → number.toInt = n)) ∧
      (∀ s' : Store, (∀ name, (s'.get name).bind Server.gpuType? = (s.get name).bind Server.gpuType?) →
        gpuTypeCounts.run.run s' = (.ok counts, s')) ∧
      ∀ events events', (Store.labelled events').Perm (Store.labelled events) →
        ((Store.labelled events').map Prod.fst).Nodup →
        (gpuTypeCounts.run.run (s.after events')).1 = (gpuTypeCounts.run.run (s.after events)).1 := by
  refine ⟨_, _, run_gpuTypeCounts s, serve_availableGpuTypes s, fun label n => ?_, ?_, ?_,
    fun label n h => ?_, fun s' h => ?_, fun events events' hp hn => ?_⟩
  · simp only [get?_countLabels, List.count_filterMap, beq_eq_decide]
  · refine (sumOf_foldl_tally .empty _).trans ?_
    rw [List.length_filterMap_eq_countP]
    exact Nat.zero_add _
  · exact SortedMap.keys_map ..
  · refine ⟨_, _, ?_, decode?_ofInt64 (Int64.ofNat n), rfl, fun hn => Int64.toInt_ofNat_of_lt hn⟩
    rw [SortedMap.get?_map, h]
    rfl
  · rw [run_gpuTypeCounts, gpuTypeCounts_congr h]
  · rw [run_gpuTypeCounts, run_gpuTypeCounts]
    refine congrArg Except.ok (gpuTypeCounts_congr fun name => ?_)
    have hlabels := congrArg (fun labels => (labels.get? name).bind id) (Store.labels_after_of_perm s hp hn)
    simpa only [Store.labels_get, Option.bind_map, Function.id_comp] using hlabels

/-- Two machines of one kind, put in one way and the other. -/
theorem gpu_types_counted_two :
    let machine (name : String) : Server :=
      { metadata := { name := some name, labels := some (.ofList [("gpu-type", "a100")]) } }
    let events : List StoreEvent := [.insert (machine "m1"), .insert (machine "m2")]
    let events' : List StoreEvent := [.insert (machine "m2"), .insert (machine "m1")]
    let s := ({} : Store).after events
    (∃ counts, gpuTypeCounts.run.run s = (.ok counts, s) ∧ counts.get? "a100" = some 2) ∧
      (gpuTypeCounts.run.run (({} : Store).after events')).1 = (gpuTypeCounts.run.run s).1 := by
  intro machine events events' s
  obtain ⟨counts, -, hrun, -, hcount, -⟩ := gpu_types_counted s
  obtain ⟨-, -, -, -, -, -, -, -, -, hperm⟩ := gpu_types_counted {}
  exact ⟨⟨counts, hrun, (hcount "a100" 2).2 (by decide +kernel)⟩,
    hperm events events' (.swap ..) (by decide +kernel)⟩

end Pool

end MetalPool
