import MetalPool.Json.Merge
import MetalPool.Proofs.Json.Fields
/-!
# Fields of a patched object

What a merge patch does to the member called `name` depends on that member and
on what the patch says of it alone (`patched`), if the patch names no member
twice (`lookup_mergeMembers`). So the fields of the patched object can be read
off the object and the patch (`fields?_merge`).
-/

namespace MetalPool.Json

variable {ms changes : List (String × Json)}

/-! ## One member -/

@[simp] theorem lookup_removeMember (name n : String) (ms : List (String × Json)) :
    (removeMember n ms).lookup name = if name = n then none else ms.lookup name := by
  induction ms with
  | nil => simp [removeMember]
  | cons m rest ih =>
    obtain ⟨k, j⟩ := m
    by_cases hk : k = n
    · subst hk
      have hcons : removeMember k ((k, j) :: rest) = removeMember k rest := by simp [removeMember]
      rw [hcons, ih, SortedMap.lookup_cons]
      by_cases hn : name = k <;> simp [hn]
    · have hcons : removeMember n ((k, j) :: rest) = (k, j) :: removeMember n rest := by
        simp [removeMember, hk]
      rw [hcons, SortedMap.lookup_cons, ih, SortedMap.lookup_cons]
      by_cases hn : name = k
      · subst hn
        simp [hk]
      · simp [hn]

@[simp] theorem filter_removeMember (name n : String) (ms : List (String × Json)) :
    (removeMember n ms).filter (·.1 == name) =
      if name = n then [] else ms.filter (·.1 == name) := by
  unfold removeMember
  rw [List.filter_filter]
  by_cases hn : name = n
  · subst hn
    simp
  · rw [if_neg hn]
    refine List.filter_congr fun m _ => ?_
    by_cases hm : m.1 = name <;> simp_all

@[simp] theorem lookup_setMember (name n : String) (j : Json) (ms : List (String × Json)) :
    (setMember n j ms).lookup name = if name = n then some j else ms.lookup name := by
  by_cases hn : name = n <;> simp [setMember, List.lookup_append, SortedMap.lookup_cons, hn]

@[simp] theorem filter_setMember (name n : String) (j : Json) (ms : List (String × Json)) :
    (setMember n j ms).filter (·.1 == name) =
      if name = n then [(n, j)] else ms.filter (·.1 == name) := by
  by_cases hn : name = n
  · simp [setMember, hn]
  · simp [setMember, hn, Ne.symm hn]

/-! ## All members that a patch names -/

/-- A member after the patch, given the member before it. -/
def patched (old : Option Json) : Json → Option Json
  | .null => none
  | patch => some (merge (old.getD .null) patch)

@[simp] theorem patched_null (old : Option Json) : patched old .null = none := rfl

@[simp] theorem patched_str (old : Option Json) (s : String) : patched old (.str s) = some (.str s) :=
  rfl

@[simp] theorem patched_int (old : Option Json) (n : Int) : patched old (.int n) = some (.int n) :=
  rfl

/-- A text that is put in if it is there, and else taken away. -/
theorem patched_elim {α : Type} (old : Option Json) (text : α → String) (o : Option α) :
    patched old (o.elim .null fun a => .str (text a)) = o.map fun a => .str (text a) := by
  cases o <;> rfl

@[simp] theorem patched_obj (old : Option Json) (changes : List (String × Json)) :
    patched old (.obj changes) = some (merge (old.getD .null) (.obj changes)) :=
  rfl

theorem mergeMembers_cons (ms : List (String × Json)) (n : String) (patch : Json)
    (rest : List (String × Json)) :
    mergeMembers ms ((n, patch) :: rest) =
      mergeMembers
        ((patched (ms.lookup n) patch).elim (removeMember n ms) fun j => setMember n j ms) rest := by
  cases patch <;> simp [mergeMembers, patched]

/-- What the first change does to a member. -/
theorem lookup_change (name n : String) (patch : Json) (ms : List (String × Json)) :
    ((patched (ms.lookup n) patch).elim (removeMember n ms) fun j => setMember n j ms).lookup name =
      if name = n then patched (ms.lookup n) patch else ms.lookup name := by
  cases patched (ms.lookup n) patch <;> simp

/-- The member called `name` after all changes. -/
def field (ms changes : List (String × Json)) (name : String) : Option Json :=
  match changes.lookup name with
  | none => ms.lookup name
  | some patch => patched (ms.lookup name) patch

theorem lookup_mergeMembers (h : (changes.map Prod.fst).Nodup) (ms : List (String × Json))
    (name : String) : (mergeMembers ms changes).lookup name = field ms changes name := by
  induction changes generalizing ms with
  | nil => rfl
  | cons change rest ih =>
    obtain ⟨n, patch⟩ := change
    obtain ⟨hn, hrest⟩ := List.nodup_cons.1 h
    rw [mergeMembers_cons, ih hrest]
    unfold field
    rw [SortedMap.lookup_cons, lookup_change]
    by_cases hname : name = n
    · subst hname
      have hlookup : rest.lookup name = none := by
        rw [List.lookup_eq_none_iff]
        intro m hm
        have hmem : m.1 ∈ rest.map Prod.fst := List.mem_map_of_mem hm
        have hne : name ≠ m.1 := by
          intro heq
          rw [heq] at hn
          exact hn hmem
        simpa using hne
      simp [hlookup]
    · simp [hname]

/-- A member that the patch names stands once at most, and any other as often as before. -/
theorem countP_mergeMembers_le (ms : List (String × Json)) {name : String}
    (h : changes.lookup name = none → ms.countP (·.1 == name) ≤ 1) :
    (mergeMembers ms changes).countP (·.1 == name) ≤ 1 := by
  induction changes generalizing ms with
  | nil => exact h rfl
  | cons change rest ih =>
    obtain ⟨n, patch⟩ := change
    rw [mergeMembers_cons]
    refine ih _ fun hrest => ?_
    rw [SortedMap.lookup_cons] at h
    cases patched (ms.lookup n) patch with
    | none =>
      by_cases hname : name = n <;> simp_all [List.countP_eq_length_filter]
    | some j =>
      by_cases hname : name = n <;> simp_all [List.countP_eq_length_filter]

/-- The fields of an object after a patch. -/
theorem fields?_merge {names : List String} (hchanges : (changes.map Prod.fst).Nodup) (target : Json)
    (h : ∀ name ∈ names, changes.lookup name = none → target.members.countP (·.1 == name) ≤ 1) :
    fields? names (merge target (.obj changes)) = some (names.map (field target.members changes)) := by
  rw [merge, fields?_obj fun name hn => countP_mergeMembers_le target.members (h name hn)]
  congr 1
  exact List.map_congr_left fun name _ => lookup_mergeMembers hchanges target.members name

end MetalPool.Json
