import MetalPool.Proofs.Reconcile.Effect
/-!
# Machines are independent

Reconciliations of different records change different things, or add to the
same counts and lists of calls, so two that follow each other can change places
(`sweep_swap`). A reconciliation then moves to the front past those of other
records (`sweep_bubble`), and any order that keeps the reconciliations of each
record as they are comes to the same (`order_between_machines_is_irrelevant`):
but for the versions of the records, which say how many writes went before, and
for the order of the calls.
-/

namespace MetalPool

/-! ## Counters -/

namespace Metrics

theorem recordReconciliation_comm (m : Metrics) (a b : String) :
    (m.recordReconciliation a).recordReconciliation b =
      (m.recordReconciliation b).recordReconciliation a := by
  by_cases h : a = b
  · rw [h]
  · have hmap : ((m.recordReconciliation a).recordReconciliation b).reconciliations =
        ((m.recordReconciliation b).recordReconciliation a).reconciliations := by
      refine SortedMap.ext_get? fun k => ?_
      simp only [recordReconciliation, SortedMap.get?_insert, if_neg h, if_neg (Ne.symm h)]
      by_cases hb : k = b
      · simp [hb, Ne.symm h]
      · simp [hb]
    exact congrArg (fun r => { m with reconciliations := r }) hmap

theorem recordAction_comm (m : Metrics) (a b : String × Bool) :
    (m.recordAction a.1 a.2).recordAction b.1 b.2 = (m.recordAction b.1 b.2).recordAction a.1 a.2 := by
  have hmap : ((m.recordAction a.1 a.2).recordAction b.1 b.2).actions =
      ((m.recordAction b.1 b.2).recordAction a.1 a.2).actions := by
    refine SortedMap.ext_get? fun k => ?_
    obtain ⟨a, good⟩ := a
    obtain ⟨b, good'⟩ := b
    simp only [recordAction, SortedMap.get?_insert]
    by_cases h : a = b
    · subst h
      by_cases hk : k = a <;> cases good <;> cases good' <;> simp [hk]
    · by_cases hb : k = b
      · simp [hb, Ne.symm h]
      · simp [hb, h]
  exact congrArg (fun r => { m with actions := r }) hmap

theorem count_comm (m : Metrics) (e e' : Effect) : e'.count (e.count m) = e.count (e'.count m) := by
  have hmixed : ∀ (m : Metrics) (label : String) (a : String × Bool),
      (m.recordReconciliation label).recordAction a.1 a.2 =
        (m.recordAction a.1 a.2).recordReconciliation label := fun _ _ _ => rfl
  unfold Effect.count
  cases e.action <;> cases e'.action <;>
    simp only [Option.elim_none, Option.elim_some, hmixed,
      recordReconciliation_comm _ (World.resultLabel e.result)]
  rw [recordAction_comm]

end Metrics

namespace World

/-- The worlds differ at most in versions, in the order of calls and in what the management
controllers remember. -/
structure Alike (w v : World) : Prop where
  terms_eq : v.terms = w.terms
  records_eq : ∀ n, (v.store.get n).map Server.unversioned = (w.store.get n).map Server.unversioned
  writes_eq : v.store.writes = w.store.writes
  conflicts_eq : v.store.conflicts = w.store.conflicts
  metrics_eq : v.metrics = w.metrics
  probes_perm : v.plant.probes.Perm w.plant.probes
  calls_perm : v.plant.powerCalls.Perm w.plant.powerCalls

variable {w v u w' v' : World} {name name' : String} {now now' : Timestamp} {e e' : Effect}

theorem Alike.refl (w : World) : w.Alike w :=
  ⟨rfl, fun _ => rfl, rfl, rfl, rfl, .refl _, .refl _⟩

theorem Alike.trans (h : w.Alike v) (h' : v.Alike u) : w.Alike u where
  terms_eq := h'.terms_eq.trans h.terms_eq
  records_eq n := (h'.records_eq n).trans (h.records_eq n)
  writes_eq := h'.writes_eq.trans h.writes_eq
  conflicts_eq := h'.conflicts_eq.trans h.conflicts_eq
  metrics_eq := h'.metrics_eq.trans h.metrics_eq
  probes_perm := h'.probes_perm.trans h.probes_perm
  calls_perm := h'.calls_perm.trans h.calls_perm

theorem Alike.alikeAt (h : w.Alike v) (name : String) : w.AlikeAt v name :=
  ⟨h.terms_eq, h.records_eq name, by rw [h.conflicts_eq]⟩

/-! ## One reconciliation -/

/-- The same effect keeps worlds alike. -/
theorem Alike.undergoes (h : w.Alike v) (hw : w.Undergoes w' name e) (hv : v.Undergoes v' name e) :
    w'.Alike v' where
  terms_eq := by rw [hv.terms_eq, hw.terms_eq, h.terms_eq]
  records_eq n := by
    by_cases hn : n = name
    · rw [hn, hv.record_eq, hw.record_eq]
    · rw [hv.get_of_ne n hn, hw.get_of_ne n hn, h.records_eq n]
  writes_eq := by rw [hv.writes_eq, hw.writes_eq, h.writes_eq]
  conflicts_eq := by rw [hv.conflicts_eq, hw.conflicts_eq, h.conflicts_eq]
  metrics_eq := by rw [hv.metrics_eq, hw.metrics_eq, h.metrics_eq]
  probes_perm := by
    rw [hv.probes_eq, hw.probes_eq]
    exact h.probes_perm.append_right _
  calls_perm := hv.calls_perm.trans ((h.calls_perm.append_right _).trans hw.calls_perm.symm)

/-- A reconciliation of another record leaves what one of `name` goes by. -/
theorem Undergoes.alikeAt (hw : w.Undergoes w' name' e) (hne : name ≠ name') : w.AlikeAt w' name where
  terms_eq := hw.terms_eq
  record_eq := by rw [hw.get_of_ne name hne]
  contested_iff := by
    rw [hw.conflicts_eq]
    split
    · exact List.mem_erase_of_ne hne
    · exact Iff.rfl

/-- Effects on different records come to the same in either order. -/
theorem Undergoes.swap {w₁ w₂ : World} (hne : name ≠ name') (h₁ : w.Undergoes w₁ name e)
    (h₁' : w₁.Undergoes w' name' e') (h₂ : w.Undergoes w₂ name' e') (h₂' : w₂.Undergoes v' name e) :
    w'.Alike v' where
  terms_eq := by rw [h₂'.terms_eq, h₂.terms_eq, h₁'.terms_eq, h₁.terms_eq]
  records_eq n := by
    by_cases hn : n = name
    · rw [hn, h₂'.record_eq, h₁'.get_of_ne name hne, h₁.record_eq]
    · rw [h₂'.get_of_ne n hn]
      by_cases hn' : n = name'
      · rw [hn', h₂.record_eq, h₁'.record_eq]
      · rw [h₂.get_of_ne n hn', h₁'.get_of_ne n hn', h₁.get_of_ne n hn]
  writes_eq := by
    rw [h₂'.writes_eq, h₂.writes_eq, h₁'.writes_eq, h₁.writes_eq]
    omega
  conflicts_eq := by
    rw [h₂'.conflicts_eq, h₂.conflicts_eq, h₁'.conflicts_eq, h₁.conflicts_eq]
    cases e.spent <;> cases e'.spent
    · rfl
    · rfl
    · rfl
    · exact List.erase_comm ..
  metrics_eq := by
    rw [h₂'.metrics_eq, h₂.metrics_eq, h₁'.metrics_eq, h₁.metrics_eq, Metrics.count_comm]
  probes_perm := by
    rw [h₂'.probes_eq, h₂.probes_eq, h₁'.probes_eq, h₁.probes_eq, List.append_assoc, List.append_assoc]
    exact List.perm_append_comm.append_left _
  calls_perm := by
    have hother : v'.plant.powerCalls.Perm
        (w.plant.powerCalls ++ (e'.call.toList ++ e.call.toList)) := by
      rw [← List.append_assoc]
      exact h₂'.calls_perm.trans (h₂.calls_perm.append_right _)
    have hone : w'.plant.powerCalls.Perm
        (w.plant.powerCalls ++ (e.call.toList ++ e'.call.toList)) := by
      rw [← List.append_assoc]
      exact h₁'.calls_perm.trans (h₁.calls_perm.append_right _)
    exact (hother.trans (List.perm_append_comm.append_left _)).trans hone.symm

theorem reconcile_alike (h : w.Alike v) (name : String) (now : Timestamp) :
    (v.reconcile name now).1 = (w.reconcile name now).1 ∧
      (w.reconcile name now).2.Alike (v.reconcile name now).2 := by
  obtain ⟨e, he⟩ := w.exists_effect name now
  obtain ⟨hw, hwe⟩ := he w ((Alike.refl w).alikeAt name)
  obtain ⟨hv, hve⟩ := he v (h.alikeAt name)
  exact ⟨hv.trans hw.symm, h.undergoes hwe hve⟩

/-- Reconciliations of two records can change places. -/
theorem reconcile_swap (w : World) (now now' : Timestamp) (hne : name ≠ name') :
    ((w.reconcile name' now').2.reconcile name now).1 = (w.reconcile name now).1 ∧
    ((w.reconcile name now).2.reconcile name' now').1 = (w.reconcile name' now').1 ∧
    ((w.reconcile name now).2.reconcile name' now').2.Alike
      ((w.reconcile name' now').2.reconcile name now).2 := by
  obtain ⟨e, he⟩ := w.exists_effect name now
  obtain ⟨e', he'⟩ := w.exists_effect name' now'
  obtain ⟨hr, h₁⟩ := he w ((Alike.refl w).alikeAt name)
  obtain ⟨hr', h₂⟩ := he' w ((Alike.refl w).alikeAt name')
  obtain ⟨hs, h₂'⟩ := he _ (h₂.alikeAt hne)
  obtain ⟨hs', h₁'⟩ := he' _ (h₁.alikeAt hne.symm)
  exact ⟨hs.trans hr.symm, hs'.trans hr'.symm, h₁.swap hne h₁' h₂ h₂'⟩

/-! ## Many reconciliations -/

/-- Reconciles the records at the times in order: what came of each, and the world afterwards. -/
def sweep (w : World) : List (String × Timestamp) → List ((String × Timestamp) × Reconciled) × World
  | [] => ([], w)
  | item :: rest =>
    let (result, w) := w.reconcile item.1 item.2
    let (results, w) := w.sweep rest
    ((item, result) :: results, w)

theorem sweep_cons (w : World) (item : String × Timestamp) (rest : List (String × Timestamp)) :
    w.sweep (item :: rest) =
      ((item, (w.reconcile item.1 item.2).1) :: ((w.reconcile item.1 item.2).2.sweep rest).1,
        ((w.reconcile item.1 item.2).2.sweep rest).2) := rfl

theorem sweep_items (w : World) (items : List (String × Timestamp)) :
    (w.sweep items).1.map Prod.fst = items := by
  induction items generalizing w with
  | nil => rfl
  | cons item rest ih => rw [sweep_cons, List.map_cons, ih]

/-- Of the items and results, those of the record called `name`. -/
def resultsOf (name : String) (l : List ((String × Timestamp) × Reconciled)) :
    List ((String × Timestamp) × Reconciled) :=
  l.filter fun r => r.1.1 = name

theorem resultsOf_cons (name : String) (r : (String × Timestamp) × Reconciled)
    (l : List ((String × Timestamp) × Reconciled)) :
    resultsOf name (r :: l) = if r.1.1 = name then r :: resultsOf name l else resultsOf name l := by
  unfold resultsOf
  simp [List.filter_cons]

/-- Both came to the same for every record. -/
structure Matches (a b : List ((String × Timestamp) × Reconciled) × World) : Prop where
  results_eq : ∀ name, resultsOf name b.1 = resultsOf name a.1
  alike : a.2.Alike b.2

variable {a b c : List ((String × Timestamp) × Reconciled) × World}

theorem Matches.refl (a : List ((String × Timestamp) × Reconciled) × World) : Matches a a :=
  ⟨fun _ => rfl, .refl _⟩

theorem Matches.trans (h : Matches a b) (h' : Matches b c) : Matches a c :=
  ⟨fun name => (h'.results_eq name).trans (h.results_eq name), h.alike.trans h'.alike⟩

theorem Matches.cons (h : Matches a b) (r : (String × Timestamp) × Reconciled) :
    Matches (r :: a.1, a.2) (r :: b.1, b.2) :=
  ⟨fun name => by rw [resultsOf_cons, resultsOf_cons, h.results_eq], h.alike⟩

theorem Matches.swap (h : Matches a b) {r r' : (String × Timestamp) × Reconciled}
    (hne : r.1.1 ≠ r'.1.1) : Matches (r :: r' :: a.1, a.2) (r' :: r :: b.1, b.2) := by
  refine ⟨fun name => ?_, h.alike⟩
  simp only [resultsOf_cons, h.results_eq]
  by_cases hr : r.1.1 = name
  · have hr' : r'.1.1 ≠ name := fun he => hne (hr.trans he.symm)
    rw [if_neg hr', if_neg hr']
  · rw [if_neg hr, if_neg hr]

theorem sweep_alike (h : w.Alike v) (items : List (String × Timestamp)) :
    Matches (w.sweep items) (v.sweep items) := by
  induction items generalizing w v with
  | nil => exact ⟨fun _ => rfl, h⟩
  | cons item rest ih =>
    obtain ⟨hresult, halike⟩ := reconcile_alike h item.1 item.2
    rw [sweep_cons, sweep_cons, hresult]
    exact (ih halike).cons _

/-- Two items of different records can change places. -/
theorem sweep_swap (w : World) {item item' : String × Timestamp} (hne : item.1 ≠ item'.1)
    (rest : List (String × Timestamp)) :
    Matches (w.sweep (item :: item' :: rest)) (w.sweep (item' :: item :: rest)) := by
  obtain ⟨hresult, hresult', halike⟩ := reconcile_swap w item.2 item'.2 hne
  simp only [sweep_cons]
  rw [hresult, hresult']
  exact (sweep_alike halike rest).swap hne

/-- An item moves to the front past those of other records. -/
theorem sweep_bubble (w : World) (item : String × Timestamp) {front : List (String × Timestamp)}
    (hfront : ∀ other ∈ front, other.1 ≠ item.1) (rest : List (String × Timestamp)) :
    Matches (w.sweep (item :: (front ++ rest))) (w.sweep (front ++ item :: rest)) := by
  induction front generalizing w with
  | nil => exact .refl _
  | cons other front ih =>
    obtain ⟨hne, hfront⟩ := List.forall_mem_cons.1 hfront
    exact (sweep_swap w hne.symm (front ++ rest)).trans
      ((ih (w.reconcile other.1 other.2).2 hfront).cons _)

/-- Where two lists have the same items of each record and one starts with the item that the other
first has of its record, they have so without it. -/
theorem filter_rest {item : String × Timestamp} {front back rest : List (String × Timestamp)}
    (hfront : ∀ other ∈ front, other.1 ≠ item.1)
    (h : ∀ name, (front ++ item :: back).filter (·.1 = name) = (item :: rest).filter (·.1 = name))
    (name : String) : (front ++ back).filter (·.1 = name) = rest.filter (·.1 = name) := by
  have hname := h name
  rw [List.filter_append, List.filter_cons, List.filter_cons] at hname
  rw [List.filter_append]
  by_cases hn : item.1 = name
  · have hempty : front.filter (·.1 = name) = [] :=
      List.filter_eq_nil_iff.2 fun o ho => by simpa [← hn] using hfront o ho
    rw [hempty, if_pos (by simpa using hn), if_pos (by simpa using hn)] at hname
    rw [hempty]
    exact List.tail_eq_of_cons_eq hname
  · rw [if_neg (by simpa using hn), if_neg (by simpa using hn)] at hname
    exact hname

/-- Any order that keeps the items of each record as they are comes to the same. -/
theorem sweep_matches {items other : List (String × Timestamp)}
    (h : ∀ name, other.filter (·.1 = name) = items.filter (·.1 = name)) :
    Matches (w.sweep items) (w.sweep other) := by
  induction items generalizing w other with
  | nil =>
    have hnone : other = [] := by
      cases other with
      | nil => rfl
      | cons item rest => simpa using h item.1
    rw [hnone]
    exact .refl _
  | cons item rest ih =>
    -- The first item stands in the other list behind items of other records only.
    obtain ⟨front, back, rfl, hfront, -, -⟩ :=
      List.filter_eq_cons_iff.1 ((h item.1).trans (List.filter_cons_of_pos (by simp)))
    have hfront' : ∀ o ∈ front, o.1 ≠ item.1 := fun o ho => by simpa using hfront o ho
    have hfirst : Matches (w.sweep (item :: rest)) (w.sweep (item :: (front ++ back))) :=
      (ih (filter_rest hfront' h)).cons _
    exact hfirst.trans (sweep_bubble w item hfront' back)

/-! ## Main theorem -/

/-- Two lists of reconciliations with the same ones for each record, in the same order, come to the
same. Each has a result for each of its items, and for each record the results are the same; the
records are the same afterwards but for their versions, and so are the number of writes, the
counters, and the multisets of probes and of calls to the backends. -/
theorem order_between_machines_is_irrelevant (w : World) (items other : List (String × Timestamp))
    (h : ∀ name, other.filter (·.1 = name) = items.filter (·.1 = name)) :
    ((w.sweep items).1.map Prod.fst = items ∧ (w.sweep other).1.map Prod.fst = other) ∧
    (∀ name, resultsOf name (w.sweep other).1 = resultsOf name (w.sweep items).1) ∧
    (w.sweep items).2.Alike (w.sweep other).2 := by
  have hmatches : Matches (w.sweep items) (w.sweep other) := sweep_matches h
  exact ⟨⟨sweep_items w items, sweep_items w other⟩, hmatches.results_eq, hmatches.alike⟩

/-- Two reconciliations of a machine that is to be shut down, and between them one of another, for
which a conflict waits: it can as well go first. -/
theorem order_between_machines_is_irrelevant_contested :
    let other : Server := { Server.asleep with metadata := { name := some "m2" } }
    let w := ((start [.asleep, other] ["10.0.0.1"] 3 (.ofSeconds 60)).step (.conflictNext "m2")).2
    let items := [("m1", Timestamp.noon), ("m2", .noon), ("m1", .noon)]
    let swapped := [("m2", Timestamp.noon), ("m1", .noon), ("m1", .noon)]
    (∀ name, swapped.filter (·.1 = name) = items.filter (·.1 = name)) ∧
      resultsOf "m2" (w.sweep items).1 =
        [(("m2", .noon), .error (.store (.conflict "m2")))] ∧
      resultsOf "m2" (w.sweep swapped).1 = resultsOf "m2" (w.sweep items).1 ∧
      (w.sweep items).2.store.writes = 2 ∧ (w.sweep items).2.plant.shutdowns.length = 2 ∧
      (w.sweep items).2.Alike (w.sweep swapped).2 := by
  intro other w items swapped
  have h : ∀ name, swapped.filter (·.1 = name) = items.filter (·.1 = name) := by
    intro name
    by_cases hone : "m1" = name
    · subst hone
      decide
    · by_cases htwo : "m2" = name <;> simp [items, swapped, hone, htwo]
  obtain ⟨-, hresults, halike⟩ := order_between_machines_is_irrelevant w items swapped h
  exact ⟨h, by decide +kernel, hresults "m2", by decide +kernel, by decide +kernel, halike⟩

end World

end MetalPool
