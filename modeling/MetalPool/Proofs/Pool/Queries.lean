import MetalPool.Proofs.Pool.Runs
import MetalPool.Proofs.Store.History
import MetalPool.Proofs.Text.ByteOrder
/-!
# What the pool answers

Each query on the pool takes its answer from one list of the records: the group
counts them, its target those that should be on, and the instances are the
records themselves. So the answers agree with each other, in every store that a
history of reads, writes and inserts leads to (`queries_agree`): there each
record is found under its own name, as `Store.Numbered` says.

A count is told as a number of 32 bits, and one that is too large as the largest
of them.
-/

namespace MetalPool.Pool

variable {s : Store}

/-! ## Answers -/

theorem serve_nodeGroups (s : Store) :
    (serve .nodeGroups {}).run s = (.ok ⟨[group s.list.length]⟩, s) :=
  run_serve .nodeGroups {} s

theorem serve_nodes (s : Store) :
    (serve .nodes ⟨groupId⟩).run s = (.ok ⟨s.list.map instanceOf⟩, s) :=
  run_serve .nodes ⟨groupId⟩ s

theorem serve_targetSize (s : Store) :
    (serve .targetSize ⟨groupId⟩).run s = (.ok ⟨size (s.list.countP isRunning)⟩, s) :=
  run_serve .targetSize ⟨groupId⟩ s

theorem run_groupFor (s : Store) (node : Node) :
    (groupFor (some node)).run.run s =
      (.ok ((s.get node.name).map fun _ => group s.list.length), s) := by
  have hask : (ask (.get node.name)).run.run s = (.ok (s.get node.name), s) := run_ask ..
  refine (run_seq_of_ok hask).trans ?_
  cases s.get node.name <;> rfl

theorem serve_nodeGroupForNode (s : Store) (node : Node) :
    (serve .nodeGroupForNode ⟨some node⟩).run s =
      (.ok ⟨(s.get node.name).map fun _ => group s.list.length⟩, s) := by
  have hrun : (handle .nodeGroupForNode ⟨some node⟩).run.run s =
      (.ok ⟨(s.get node.name).map fun _ => group s.list.length⟩, s) :=
    run_seq_of_ok (run_groupFor s node)
  refine (run_serve .nodeGroupForNode ⟨some node⟩ s).trans ?_
  rw [hrun]
  rfl

/-! ## Names -/

theorem ids_instances (h : s.Numbered) : (s.list.map instanceOf).map (·.id) = s.names := by
  rw [List.map_map]
  exact Store.names_list h

theorem mem_names (s : Store) (name : String) : name ∈ s.names ↔ (s.get name).isSome := by
  unfold Store.names SortedMap.keys Store.get
  rw [List.mem_map]
  constructor
  · rintro ⟨e, he, rfl⟩
    rw [SortedMap.get?_of_mem he]
    rfl
  · intro h
    obtain ⟨server, hg⟩ := Option.isSome_iff_exists.1 h
    obtain ⟨before, after, he, -⟩ := List.lookup_eq_some_iff.1 hg
    exact ⟨(name, server), he ▸ by simp, rfl⟩

/-! ## Counts -/

/-- A count is told as it is up to the largest number of 32 bits, and as that number beyond it. -/
theorem toInt_size (n : Nat) : (size n).toInt = min n 2147483647 := by
  unfold size
  rw [Int32.toInt_ofNat_of_lt (by omega)]

theorem size_le_size {n m : Nat} (h : n ≤ m) : size n ≤ size m := by
  rw [Int32.le_iff_toInt_le, toInt_size, toInt_size]
  omega

theorem zero_le_size (n : Nat) : 0 ≤ size n := by
  rw [Int32.le_iff_toInt_le, toInt_size, Int32.toInt_zero]
  omega

theorem size_of_large {n : Nat} (h : 2147483647 < n) : size n = 2147483647 := by
  unfold size
  rw [Nat.min_eq_right (by omega)]
  rfl

/-- The instance is in the state that the protocol calls running. -/
def IsUp (i : PoolInstance) : Bool := i.status.any (·.state == 1)

theorem isUp_instanceOf (server : Server) : IsUp (instanceOf server) = isRunning server := by
  unfold IsUp instanceOf instanceState isRunning
  cases server.spec.powerState with
  | none => rfl
  | some state => cases state <;> rfl

/-- A growing pool may turn on every machine but those that should be on already. -/
theorem length_candidates (servers : List Server) :
    servers.countP isRunning + (candidates .off servers.length servers).length = servers.length := by
  have hoff : ∀ server : Server, decide (server.spec.desired = .off) = !isRunning server := by
    intro server
    unfold ServerSpec.desired isRunning
    cases server.spec.powerState with
    | none => rfl
    | some state => cases state <;> rfl
  have htake : (candidates .off servers.length servers).length =
      servers.countP fun server => decide (server.spec.desired = .off) := by
    rw [candidates, List.length_take, List.countP_eq_length_filter]
    exact Nat.min_eq_right (List.length_filter_le ..)
  rw [htake, funext hoff]
  simpa using (List.length_eq_countP_add_countP isRunning (l := servers)).symm

/-! ## Main theorem -/

/-- What the queries on the pool answer after any history of the records, all of them without a change
to the store: the group, its instances, its target, and the group of each node. -/
theorem queries_agree (events : List StoreEvent) :
    let s := ({} : Store).after events
    ∃ (g : NodeGroup) (instances : List PoolInstance) (target : Int32),
      (serve .nodeGroups {}).run s = (.ok ⟨[g]⟩, s) ∧
      (serve .nodes ⟨groupId⟩).run s = (.ok ⟨instances⟩, s) ∧
      (serve .targetSize ⟨groupId⟩).run s = (.ok ⟨target⟩, s) ∧
      -- The instances are the records, each of them once, in the order of their names as bytes.
      instances.map (·.id) = s.list.map Server.name ∧
      (∀ name, name ∈ instances.map (·.id) ↔ ∃ server, s.get name = some server) ∧
      (instances.map fun i => Bytes.ofText i.id).Pairwise (· < ·) ∧
      -- A node belongs to the group if it is one of the instances, and to none otherwise.
      (∀ node : Node, (serve .nodeGroupForNode ⟨some node⟩).run s =
        (.ok ⟨if node.name ∈ instances.map (·.id) then some g else none⟩, s)) ∧
      -- The target is one of the sizes that the group can have.
      g.minSize ≤ target ∧ target ≤ g.maxSize ∧
      (s.records.size ≤ 2147483647 →
        g.maxSize.toInt = instances.length ∧
        target.toInt = instances.countP IsUp ∧
        target.toInt = g.maxSize.toInt - (candidates .off s.list.length s.list).length) ∧
      -- Counts that are too large are told as the largest number of 32 bits.
      (2147483647 < s.records.size → g.maxSize = 2147483647) ∧
      (2147483647 < instances.countP IsUp → target = 2147483647) := by
  intro s
  have hnamed : s.Numbered := Store.numbered_empty.after events
  have hids := ids_instances hnamed
  have hlength : s.list.length = s.records.size := List.length_map _
  have hup : (s.list.map instanceOf).countP IsUp = s.list.countP isRunning := by
    rw [List.countP_map]
    exact congrArg (List.countP · s.list) (funext isUp_instanceOf)
  have hle : s.list.countP isRunning ≤ s.list.length := List.countP_le_length
  have hsum := length_candidates s.list
  refine ⟨group s.list.length, s.list.map instanceOf, size (s.list.countP isRunning),
    serve_nodeGroups s, serve_nodes s, serve_targetSize s, ?_, ?_, ?_, ?_, ?_, ?_, ?_, ?_, ?_⟩
  · rw [List.map_map]
    rfl
  · intro name
    rw [hids, mem_names, Option.isSome_iff_exists]
  · have hsorted : s.names.Pairwise (· < ·) := s.records.keys_pairwise
    rw [← hids, List.pairwise_map] at hsorted
    rw [List.pairwise_map]
    exact hsorted.imp Bytes.ofText_lt_ofText_iff.2
  · intro node
    rw [serve_nodeGroupForNode, hids]
    simp only [mem_names]
    cases s.get node.name <;> rfl
  · exact zero_le_size _
  · exact size_le_size hle
  · intro hfew
    have hmax : (group s.list.length).maxSize.toInt = s.list.length := by
      rw [show (group s.list.length).maxSize = size s.list.length from rfl, toInt_size]
      omega
    rw [hmax, hup, toInt_size, List.length_map]
    omega
  · rw [← hlength]
    exact size_of_large
  · rw [hup]
    exact size_of_large

/-- Of two machines, put in out of order, one should be on: it is the one that counts for the target,
and the other is free. -/
theorem queries_agree_pair :
    let free : Server := { metadata := { name := some "m1" } }
    let busy : Server := { metadata := { name := some "m2" }, spec := { powerState := some .on } }
    let s := ({} : Store).after [.insert busy, .insert free]
    s.records.size ≤ 2147483647 ∧
      ∃ (g : NodeGroup) (instances : List PoolInstance) (target : Int32),
        (serve .nodeGroups {}).run s = (.ok ⟨[g]⟩, s) ∧
        (serve .targetSize ⟨groupId⟩).run s = (.ok ⟨target⟩, s) ∧
        instances.map (·.id) = ["m1", "m2"] ∧ g.maxSize.toInt = instances.length ∧
        target.toInt = g.maxSize.toInt - 1 := by
  intro free busy s
  have hfew : s.records.size ≤ 2147483647 := by decide +kernel
  have hnames : s.list.map Server.name = ["m1", "m2"] := by decide +kernel
  have hfree : (candidates .off s.list.length s.list).length = 1 := by decide +kernel
  obtain ⟨g, instances, target, hg, -, ht, hids, -, -, -, -, -, hcounts, -⟩ :=
    queries_agree [.insert busy, .insert free]
  obtain ⟨hmax, -, htarget⟩ := hcounts hfew
  exact ⟨hfew, g, instances, target, hg, ht, hids.trans hnames, hmax, by rw [htarget, hfree]; rfl⟩

end MetalPool.Pool
