import MetalPool.Json.Basic
import MetalPool.SortedMap
/-!
# Fields written and read

What a look-up finds among the members that `member?` writes, and what the
readers of fields make of it: a field that is written where it is set is read
back by `optional`.
-/

namespace MetalPool.Json

variable {α : Type} {name n : String} {write : α → Json} {read : Json → Option α}

/-- An object has the fields that look-ups find, if none stands twice. -/
theorem fields?_obj {names : List String} {ms : List (String × Json)}
    (h : ∀ name ∈ names, ms.countP (·.1 == name) ≤ 1) :
    fields? names (.obj ms) = some (names.map (List.lookup · ms)) := by
  simpa [fields?] using h

theorem countP_of_fields? {names : List String} {ms : List (String × Json)}
    {fields : List (Option Json)} (h : fields? names (.obj ms) = some fields) :
    (∀ name ∈ names, ms.countP (·.1 == name) ≤ 1) ∧ fields = names.map (List.lookup · ms) := by
  simp only [fields?, List.all_eq_true, decide_eq_true_eq] at h
  split at h
  · rename_i hall
    exact ⟨hall, (Option.some.inj h).symm⟩
  · cases h

@[simp] theorem lookup_member? (name n : String) (write : α → Json) (o : Option α) :
    (member? n write o).lookup name = if name = n then o.map write else none := by
  cases o <;> simp [member?, SortedMap.lookup_cons]

@[simp] theorem countP_member? (name n : String) (write : α → Json) (o : Option α) :
    (member? n write o).countP (·.1 == name) = if n = name then o.isSome.toNat else 0 := by
  cases o <;> simp [member?, List.countP_cons]

@[simp] theorem filter_member? (name n : String) (write : α → Json) (o : Option α) :
    (member? n write o).filter (·.1 == name) = if n = name then member? n write o else [] := by
  cases o with
  | none => simp [member?]
  | some a => by_cases h : n = name <;> simp [member?, h]

@[simp] theorem all_member? (p : String × Json → Bool) (n : String) (write : α → Json) (o : Option α) :
    (member? n write o).all p = o.all fun a => p (n, write a) := by
  cases o <;> simp [member?]

@[simp] theorem withDefault_some (default : α) (read : Json → Option α) (j : Json) :
    withDefault default read (some j) = read j :=
  rfl

theorem optional_some {j : Json} (hj : j ≠ .null) : optional read (some j) = (read j).map some := by
  cases j <;> first | exact absurd rfl hj | rfl

/-- A field that is written where it is set is read back. -/
theorem optional_map (hnull : ∀ a, write a ≠ .null) {o : Option α}
    (hread : ∀ a ∈ o, read (write a) = some a) : optional read (o.map write) = some o := by
  cases o with
  | none => rfl
  | some a =>
    rw [Option.map_some, optional_some (hnull a), hread a rfl]
    rfl

@[simp] theorem optional_text (o : Option String) : optional asText? (o.map .str) = some o :=
  optional_map nofun fun _ _ => rfl

/-- A text that is left out where it is empty is read back. -/
theorem withDefault_text (s : String) :
    withDefault "" asText? (if s = "" then none else some (.str s)) = some s := by
  by_cases hs : s = ""
  · rw [if_pos hs, hs]
    rfl
  · rw [if_neg hs]
    rfl

@[simp] theorem asUInt16?_int (n : UInt16) : (Json.int n.toNat).asUInt16? = some n := by
  have := n.toNat_lt
  simp [asUInt16?, asInt?]
  omega

@[simp] theorem asUInt32?_int (n : UInt32) : (Json.int n.toNat).asUInt32? = some n := by
  have := n.toNat_lt
  simp [asUInt32?, asInt?]
  omega

@[simp] theorem asInt64?_int (n : Int64) : (Json.int n.toInt).asInt64? = some n := by
  have hlow := n.le_toInt
  have hhigh := n.toInt_lt
  simp [asInt64?, asInt?]
  omega

@[simp] theorem asText?_str (s : String) : (Json.str s).asText? = some s := rfl

end MetalPool.Json
