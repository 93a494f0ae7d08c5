/-!
# Maps with text keys, kept in key order

A `SortedMap` is the list of its entries, strictly increasing by key, so two
maps with the same entries are equal. Keys compare by code point, which is also
the order of their UTF-8 bytes.

`get?_insert`, `get?_filter` and their like say what each operation does to a
look-up, and look-ups determine a map (`ext_get?`); `keys_pairwise` is the order
in which entries are listed.
-/

namespace MetalPool

/-- Entries of a map by key, strictly increasing, each key once. -/
structure SortedMap (β : Type) where
  entries : List (String × β)
  sorted : entries.Pairwise (fun a b => a.1 < b.1)
deriving DecidableEq, Repr

namespace SortedMap

variable {β : Type}

/-- The map without entries. -/
def empty : SortedMap β := ⟨[], .nil⟩

instance : Inhabited (SortedMap β) := ⟨empty⟩

/-! ## Entry lists -/

/-- The entries with `v` under `k`, in place of what was there. -/
def put (k : String) (v : β) : List (String × β) → List (String × β)
  | [] => [(k, v)]
  | (k', v') :: rest =>
    if k < k' then (k, v) :: (k', v') :: rest
    else if k = k' then (k, v) :: rest
    else (k', v') :: put k v rest

theorem key_of_mem_put {k : String} {v : β} {a : String × β} {l : List (String × β)}
    (h : a ∈ put k v l) : a.1 = k ∨ a ∈ l := by
  induction l with
  | nil => simp_all [put]
  | cons e rest ih =>
    obtain ⟨k', v'⟩ := e
    rw [put] at h
    split at h
    · rcases List.mem_cons.1 h with rfl | h
      · exact .inl rfl
      · exact .inr h
    · split at h
      · rcases List.mem_cons.1 h with rfl | h
        · exact .inl rfl
        · exact .inr (List.mem_cons_of_mem _ h)
      · rcases List.mem_cons.1 h with rfl | h
        · exact .inr (List.mem_cons_self ..)
        · exact (ih h).imp_right (List.mem_cons_of_mem _)

theorem lt_of_not_lt_of_ne {a b : String} (h : ¬a < b) (hne : a ≠ b) : b < a := by
  rcases Classical.em (b < a) with hba | hba
  · exact hba
  · exact absurd (String.le_antisymm (String.not_lt.1 hba) (String.not_lt.1 h)) hne

theorem put_sorted (k : String) (v : β) {l : List (String × β)}
    (h : l.Pairwise (fun a b => a.1 < b.1)) : (put k v l).Pairwise (fun a b => a.1 < b.1) := by
  induction l with
  | nil => simp [put]
  | cons e rest ih =>
    obtain ⟨k', v'⟩ := e
    obtain ⟨hhead, htail⟩ := List.pairwise_cons.1 h
    rw [put]
    split
    · rename_i hlt
      refine List.pairwise_cons.2 ⟨fun a ha => ?_, h⟩
      rcases List.mem_cons.1 ha with rfl | ha
      · exact hlt
      · exact String.lt_trans hlt (hhead a ha)
    · rename_i hlt
      split
      · rename_i heq
        exact List.pairwise_cons.2 ⟨fun a ha => heq ▸ hhead a ha, htail⟩
      · rename_i hne
        refine List.pairwise_cons.2 ⟨fun a ha => ?_, ih htail⟩
        rcases key_of_mem_put ha with heq | ha
        · rw [heq]; exact lt_of_not_lt_of_ne hlt hne
        · exact hhead a ha

/-! ## Maps -/

/-- The value under `k`, if there is one. -/
def get? (m : SortedMap β) (k : String) : Option β := m.entries.lookup k

/-- The map with `v` under `k`. -/
def insert (m : SortedMap β) (k : String) (v : β) : SortedMap β :=
  ⟨put k v m.entries, put_sorted k v m.sorted⟩

/-- The map of the entries that `p` keeps. -/
def filter (p : String → β → Bool) (m : SortedMap β) : SortedMap β :=
  ⟨m.entries.filter fun e => p e.1 e.2, m.sorted.filter _⟩

/-- The map without `k`. -/
def erase (m : SortedMap β) (k : String) : SortedMap β := m.filter fun k' _ => k' != k

/-- The map with every value changed by `f`. -/
def map {γ : Type} (f : β → γ) (m : SortedMap β) : SortedMap γ :=
  ⟨m.entries.map fun e => (e.1, f e.2), List.pairwise_map.2 (m.sorted.imp id)⟩

/-- The entries put in one after the other: of two with one key the later stays. -/
def ofList (l : List (String × β)) : SortedMap β := l.foldl (fun m e => m.insert e.1 e.2) empty

/-- Keys in order. -/
def keys (m : SortedMap β) : List String := m.entries.map Prod.fst

/-- Values in the order of their keys. -/
def values (m : SortedMap β) : List β := m.entries.map Prod.snd

/-- Number of entries. -/
def size (m : SortedMap β) : Nat := m.entries.length

theorem ext {m m' : SortedMap β} (h : m.entries = m'.entries) : m = m' := by
  cases m; cases m'; simp_all

theorem keys_pairwise (m : SortedMap β) : m.keys.Pairwise (· < ·) :=
  List.pairwise_map.2 m.sorted

theorem lookup_cons (k k' : String) (v : β) (l : List (String × β)) :
    ((k', v) :: l).lookup k = if k = k' then some v else l.lookup k := by
  by_cases h : k = k'
  · simp [h]
  · have hb : (k == k') = false := by simpa using h
    simp [List.lookup_cons, hb, h]

theorem lookup_put (k k' : String) (v : β) (l : List (String × β)) :
    (put k v l).lookup k' = if k' = k then some v else l.lookup k' := by
  induction l with
  | nil => simp [put, lookup_cons]
  | cons e rest ih =>
    obtain ⟨k₀, v₀⟩ := e
    rw [put]
    split
    · simp [lookup_cons]
    · split
      · rename_i heq
        subst heq
        by_cases h : k' = k <;> simp [lookup_cons, h]
      · rename_i hne
        by_cases h : k' = k₀
        · subst h; simp [Ne.symm hne]
        · simp [lookup_cons, h, ih]

/-- A key that is new comes on top of the others. -/
theorem put_perm {k : String} {v : β} {l : List (String × β)} (h : l.lookup k = none) :
    (put k v l).Perm ((k, v) :: l) := by
  induction l with
  | nil => exact .refl _
  | cons e rest ih =>
    obtain ⟨k₀, v₀⟩ := e
    rw [lookup_cons] at h
    have hne : k ≠ k₀ := fun he => by simp [he] at h
    rw [if_neg hne] at h
    rw [put, if_neg hne]
    split
    · exact .refl _
    · exact ((ih h).cons _).trans (.swap ..)

theorem lookup_of_mem {k : String} {v : β} {l : List (String × β)}
    (h : l.Pairwise (fun a b => a.1 < b.1)) (hm : (k, v) ∈ l) : l.lookup k = some v := by
  induction l with
  | nil => cases hm
  | cons e rest ih =>
    obtain ⟨k', v'⟩ := e
    obtain ⟨hhead, htail⟩ := List.pairwise_cons.1 h
    rw [lookup_cons]
    rcases List.mem_cons.1 hm with heq | hm
    · cases heq
      exact if_pos rfl
    · have hne : k ≠ k' := (String.ne_of_lt (hhead (k, v) hm)).symm
      rw [if_neg hne]
      exact ih htail hm

/-- What is listed is what a look-up finds. -/
theorem get?_of_mem {m : SortedMap β} {k : String} {v : β} (h : (k, v) ∈ m.entries) :
    m.get? k = some v :=
  lookup_of_mem m.sorted h

@[simp] theorem get?_empty (k : String) : (empty : SortedMap β).get? k = none := rfl

@[simp] theorem get?_insert (m : SortedMap β) (k k' : String) (v : β) :
    (m.insert k v).get? k' = if k' = k then some v else m.get? k' :=
  lookup_put k k' v m.entries

/-! ## Look-ups -/

theorem lookup_of_lt {k : String} {l : List (String × β)} (h : ∀ e ∈ l, k < e.1) : l.lookup k = none :=
  List.lookup_eq_none_iff.2 fun e he => bne_iff_ne.2 (String.ne_of_lt (h e he))

theorem lookup_filter (p : String → β → Bool) (k : String) {l : List (String × β)}
    (h : l.Pairwise (fun a b => a.1 < b.1)) :
    (l.filter fun e => p e.1 e.2).lookup k = (l.lookup k).filter (p k) := by
  induction l with
  | nil => rfl
  | cons e rest ih =>
    obtain ⟨k', v'⟩ := e
    obtain ⟨hhead, htail⟩ := List.pairwise_cons.1 h
    rw [List.filter_cons, lookup_cons]
    by_cases hk : k = k'
    · subst hk
      have hrest : rest.lookup k = none := lookup_of_lt hhead
      cases hp : p k v' <;> simp [ih htail, hrest, hp, Option.filter]
    · rw [if_neg hk, ← ih htail]
      cases p k' v'
      · simp
      · simp [lookup_cons, hk]

/-- Entries in order are determined by what look-ups find. -/
theorem eq_of_lookup {l l' : List (String × β)} (h : l.Pairwise (fun a b => a.1 < b.1))
    (h' : l'.Pairwise (fun a b => a.1 < b.1)) (he : ∀ k, l.lookup k = l'.lookup k) : l = l' := by
  induction l generalizing l' with
  | nil =>
    cases l' with
    | nil => rfl
    | cons e rest =>
      obtain ⟨k, v⟩ := e
      simpa [lookup_cons] using he k
  | cons e rest ih =>
    obtain ⟨k, v⟩ := e
    cases l' with
    | nil => simpa [lookup_cons] using he k
    | cons e' rest' =>
      obtain ⟨k', v'⟩ := e'
      obtain ⟨hhead, htail⟩ := List.pairwise_cons.1 h
      obtain ⟨hhead', htail'⟩ := List.pairwise_cons.1 h'
      -- Neither first key comes before the other, where no look-up would find it.
      have hkey : k = k' := by
        refine Decidable.byContradiction fun hne => ?_
        rcases Classical.em (k < k') with hlt | hlt
        · have hk := he k
          rw [lookup_cons, if_pos rfl, lookup_of_lt] at hk
          · cases hk
          · intro e he
            rcases List.mem_cons.1 he with rfl | he
            · exact hlt
            · exact String.lt_trans hlt (hhead' e he)
        · have hlt' := lt_of_not_lt_of_ne hlt hne
          have hk := he k'
          rw [lookup_cons k' k', if_pos rfl, lookup_of_lt] at hk
          · cases hk
          · intro e he
            rcases List.mem_cons.1 he with rfl | he
            · exact hlt'
            · exact String.lt_trans hlt' (hhead e he)
      subst hkey
      have hvalue : v = v' := by simpa [lookup_cons] using he k
      have hrest : ∀ j, rest.lookup j = rest'.lookup j := by
        intro j
        by_cases hj : j = k
        · rw [hj, lookup_of_lt hhead, lookup_of_lt hhead']
        · simpa [lookup_cons, hj] using he j
      rw [hvalue, ih htail htail' hrest]

@[simp] theorem get?_filter (m : SortedMap β) (p : String → β → Bool) (k : String) :
    (m.filter p).get? k = (m.get? k).filter (p k) :=
  lookup_filter p k m.sorted

@[simp] theorem get?_erase (m : SortedMap β) (k k' : String) :
    (m.erase k).get? k' = if k' = k then none else m.get? k' := by
  unfold erase
  rw [get?_filter]
  by_cases h : k' = k
  · subst h
    cases m.get? k' <;> simp [Option.filter]
  · cases m.get? k' <;> simp [h, Option.filter]

/-- Maps are equal if look-ups in them are. -/
theorem ext_get? {m m' : SortedMap β} (h : ∀ k, m.get? k = m'.get? k) : m = m' :=
  ext (eq_of_lookup m.sorted m'.sorted h)

theorem insert_of_get? {m : SortedMap β} {k : String} {v : β} (h : m.get? k = some v) :
    m.insert k v = m := by
  refine ext_get? fun k' => ?_
  rw [get?_insert]
  by_cases hk : k' = k
  · rw [if_pos hk, hk, h]
  · rw [if_neg hk]

theorem lookup_map {γ : Type} (f : β → γ) (k : String) (l : List (String × β)) :
    (l.map fun e => (e.1, f e.2)).lookup k = (l.lookup k).map f := by
  induction l with
  | nil => rfl
  | cons e rest ih =>
    rw [List.map_cons, lookup_cons, lookup_cons, ih]
    split <;> rfl

@[simp] theorem get?_map {γ : Type} (f : β → γ) (m : SortedMap β) (k : String) :
    (m.map f).get? k = (m.get? k).map f :=
  lookup_map f k m.entries

theorem map_insert {γ : Type} (f : β → γ) (m : SortedMap β) (k : String) (v : β) :
    (m.insert k v).map f = (m.map f).insert k (f v) := by
  refine ext_get? fun k' => ?_
  rw [get?_map, get?_insert, get?_insert, get?_map]
  split <;> rfl

theorem map_map {γ δ : Type} (f : β → γ) (g : γ → δ) (m : SortedMap β) :
    (m.map f).map g = m.map (g ∘ f) := by
  refine ext_get? fun k => ?_
  rw [get?_map, get?_map, get?_map, Option.map_map]

theorem values_map {γ : Type} (f : β → γ) (m : SortedMap β) : (m.map f).values = m.values.map f := by
  unfold values map
  rw [List.map_map, List.map_map]
  rfl

theorem keys_map {γ : Type} (f : β → γ) (m : SortedMap β) : (m.map f).keys = m.keys := by
  unfold keys map
  rw [List.map_map]
  rfl

/-! ## Sums and counts -/

def sumEntries (f : β → Nat) : List (String × β) → Nat
  | [] => 0
  | (_, v) :: rest => f v + sumEntries f rest

/-- The sum of what `f` gives for the values. -/
def sumOf (f : β → Nat) (m : SortedMap β) : Nat := sumEntries f m.entries

/-- Putting a value in the place of another changes a sum by these two alone. -/
theorem sumEntries_put (f : β → Nat) (k : String) (v : β) {l : List (String × β)}
    (h : l.Pairwise (fun a b => a.1 < b.1)) :
    sumEntries f (put k v l) + (l.lookup k).elim 0 f = sumEntries f l + f v := by
  induction l with
  | nil => simp [put, sumEntries]
  | cons e rest ih =>
    obtain ⟨k', v'⟩ := e
    obtain ⟨hhead, htail⟩ := List.pairwise_cons.1 h
    have ih := ih htail
    rw [put, lookup_cons]
    by_cases hlt : k < k'
    · have hrest : rest.lookup k = none := lookup_of_lt fun e he => String.lt_trans hlt (hhead e he)
      rw [if_pos hlt, if_neg (String.ne_of_lt hlt), hrest]
      simp only [sumEntries, Option.elim_none]
      omega
    · rw [if_neg hlt]
      by_cases heq : k = k'
      · rw [if_pos heq, if_pos heq]
        simp only [sumEntries, Option.elim_some]
        omega
      · rw [if_neg heq, if_neg heq]
        simp only [sumEntries]
        omega

theorem sumOf_insert (f : β → Nat) (m : SortedMap β) (k : String) (v : β) :
    (m.insert k v).sumOf f + (m.get? k).elim 0 f = m.sumOf f + f v :=
  sumEntries_put f k v m.sorted

theorem countP_values (p : β → Bool) (m : SortedMap β) :
    m.values.countP p = m.sumOf fun v => (p v).toNat := by
  unfold values sumOf
  induction m.entries with
  | nil => rfl
  | cons e rest ih =>
    rw [List.map_cons, List.countP_cons, ih, sumEntries]
    cases p e.2 <;> simp [Nat.add_comm]

theorem countP_insert (m : SortedMap β) {k : String} {old : β} (v : β) (p : β → Bool)
    (hg : m.get? k = some old) :
    (m.insert k v).values.countP p + (p old).toNat = m.values.countP p + (p v).toNat := by
  have hsum := sumOf_insert (fun v => (p v).toNat) m k v
  rw [hg] at hsum
  rw [countP_values, countP_values]
  exact hsum

/-! ## Maps from their entries -/

/-- Entries of new keys come on top of the others. -/
theorem foldl_insert_perm (m : SortedMap β) {l : List (String × β)} (hn : (l.map Prod.fst).Nodup)
    (hfresh : ∀ e ∈ l, m.get? e.1 = none) :
    (l.foldl (fun m e => m.insert e.1 e.2) m).entries.Perm (l ++ m.entries) := by
  induction l generalizing m with
  | nil => exact .refl _
  | cons e rest ih =>
    obtain ⟨hnot, hnodup⟩ := List.nodup_cons.1 hn
    obtain ⟨hfirst, hrest⟩ := List.forall_mem_cons.1 hfresh
    have hinsert : (m.insert e.1 e.2).entries.Perm (e :: m.entries) := put_perm hfirst
    refine ((ih (m.insert e.1 e.2) hnodup ?_).trans (hinsert.append_left rest)).trans List.perm_middle
    intro e' he'
    have hne : e'.1 ≠ e.1 := fun he => hnot (he ▸ List.mem_map_of_mem he')
    rw [get?_insert, if_neg hne]
    exact hrest e' he'

/-- A map does not depend on the order in which its entries are put in. -/
theorem ofList_of_perm {m : SortedMap β} {l : List (String × β)} (h : l.Perm m.entries) :
    ofList l = m := by
  have hnodup : (l.map Prod.fst).Nodup :=
    (h.map Prod.fst).nodup_iff.2 (m.keys_pairwise.imp fun hlt => String.ne_of_lt hlt)
  have hperm : (ofList l).entries.Perm m.entries := by
    refine (foldl_insert_perm empty hnodup fun _ _ => rfl).trans ?_
    rw [show (empty : SortedMap β).entries = [] from rfl, List.append_nil]
    exact h
  refine ext (hperm.eq_of_pairwise ?_ (ofList l).sorted m.sorted)
  intro a b _ _ hab hba
  exact absurd hba (String.lt_asymm hab)

theorem ofList_entries (m : SortedMap β) : ofList m.entries = m := ofList_of_perm (.refl _)

end SortedMap

end MetalPool
