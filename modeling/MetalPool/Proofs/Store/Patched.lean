import MetalPool.Proofs.Json.Merge
import MetalPool.Proofs.Server.RoundTrip
import MetalPool.Proofs.Store.Write
import MetalPool.Store.Patch
/-!
# Patched records

A record in a cluster is changed by a merge patch of its JSON. Read back, the
patched record is the record with the change made to it: the patch of a status
puts it in place of the one before, but for fractions of a second.

That of a desired state changes nothing else of the spec where this is written as
an object. A spec can also be written as an array of its fields; a patch knows
nothing of these and takes its place as a whole.

The patches thus do what writes to records in memory do (`patches_replace`).
-/

namespace MetalPool

open Json (fields? optional withDefault merge setMember members field)

/-! ## The spec -/

namespace ServerSpec

variable {spec : ServerSpec} {j : Json} {ms : List (String × Json)}

/-- What the fields of a spec are read as. -/
theorem ofJson?_eq_some {powerState controlType control : Option Json}
    (hf : fields? ["powerState", "type", "control"] j = some [powerState, controlType, control]) :
    ofJson? j = some spec ↔
      optional PowerState.ofJson? powerState = some spec.powerState ∧
      optional ControlType.ofJson? controlType = some spec.controlType ∧
      withDefault {} Control.ofJson? control = some spec.control := by
  unfold ofJson?
  rw [hf]
  cases spec
  simp only [Option.bind_eq_bind, Option.bind_eq_some_iff, Option.pure_def, Option.some.injEq, mk.injEq]
  constructor
  · rintro ⟨_, hpower, _, htype, _, hcontrol, rfl, rfl, rfl⟩
    exact ⟨hpower, htype, hcontrol⟩
  · rintro ⟨hpower, htype, hcontrol⟩
    exact ⟨_, hpower, _, htype, _, hcontrol, rfl, rfl, rfl⟩

theorem fields?_of_ofJson? (h : ofJson? (.obj ms) = some spec) :
    fields? ["powerState", "type", "control"] (.obj ms) =
      some [ms.lookup "powerState", ms.lookup "type", ms.lookup "control"] := by
  unfold ofJson? at h
  cases hf : fields? ["powerState", "type", "control"] (.obj ms) with
  | none => simp [hf] at h
  | some fields =>
    obtain ⟨-, rfl⟩ := Json.countP_of_fields? hf
    rfl

/-- Another desired state is put into a spec that is written as an object. -/
theorem ofJson?_patched (h : ofJson? (.obj ms) = some spec) (state : PowerState) :
    ofJson? (merge (.obj ms) (.obj [("powerState", state.toJson)])) =
      some { spec with powerState := some state } := by
  have hf := fields?_of_ofJson? h
  obtain ⟨hcount, -⟩ := Json.countP_of_fields? hf
  obtain ⟨-, htype, hcontrol⟩ := (ofJson?_eq_some hf).1 h
  have hpatched : fields? ["powerState", "type", "control"]
      (merge (.obj ms) (.obj [("powerState", state.toJson)])) =
        some [some state.toJson, ms.lookup "type", ms.lookup "control"] := by
    rw [Json.fields?_merge (by simp) (.obj ms) fun name hn _ => hcount name hn]
    simp [field, SortedMap.lookup_cons, members, PowerState.toJson]
  have hpower : optional PowerState.ofJson? ((some state).map PowerState.toJson) = some (some state) :=
    Json.optional_map nofun fun p _ => p.ofJson?_toJson
  exact (ofJson?_eq_some hpatched).2 ⟨hpower, htype, hcontrol⟩

/-- A patch takes the place of a spec that is written as an array. -/
theorem ofJson?_patched_arr (items : List Json) (state : PowerState) :
    ofJson? (merge (.arr items) (.obj [("powerState", state.toJson)])) =
      some { powerState := some state } := by
  cases state <;> rfl

end ServerSpec

/-! ## The status -/

/-- The status without the fraction of a second. -/
def ServerStatus.truncate (s : ServerStatus) : ServerStatus :=
  { s with failingSince := s.failingSince.map Timestamp.truncate }

/-- What the patch of a status says of its fields. -/
def Patch.statusFields (s : ServerStatus) : List (String × Json) :=
  [("status", s.phase.elim .null Phase.toJson),
    ("message", if s.message = "" then .null else .str s.message),
    ("failingSince", s.failingSince.elim .null fun t => .str t.toWholeSecondsText),
    ("failureCount", .int s.failureCount.toNat)]

/-- Nothing is left of what was there before. -/
theorem ServerStatus.ofJson?_patched {s : ServerStatus} (h : s.Dated) (old : Json) :
    ofJson? (merge old (.obj (Patch.statusFields s))) = some s.truncate := by
  have hfields : fields? ["status", "message", "failingSince", "failureCount"]
      (merge old (.obj (Patch.statusFields s))) =
        some [s.phase.map Phase.toJson, if s.message = "" then none else some (.str s.message),
          s.failingSince.map fun t => .str t.toWholeSecondsText, some (.int s.failureCount.toNat)] := by
    rw [Json.fields?_merge (by simp [Patch.statusFields]) old
      (by simp [Patch.statusFields, SortedMap.lookup_cons])]
    have hphase : Phase.toJson = fun p => .str p.name := rfl
    by_cases hm : s.message = "" <;>
      simp [field, Patch.statusFields, SortedMap.lookup_cons, Json.patched_elim, hphase, hm]
  have hphase : optional Phase.ofJson? (s.phase.map Phase.toJson) = some s.phase :=
    Json.optional_map nofun fun p _ => p.ofJson?_toJson
  have hfailing : optional Timestamp.ofJson?
      (s.failingSince.map fun t => .str t.toWholeSecondsText) =
        some (s.failingSince.map Timestamp.truncate) := by
    cases hs : s.failingSince with
    | none => rfl
    | some t =>
      have hread : Timestamp.ofJson? (.str t.toWholeSecondsText) = some t.truncate := by
        rw [Timestamp.ofJson?_str, Timestamp.parse?_toWholeSecondsText (h t hs)]
      simp [Json.optional_some, hread]
  simp [ofJson?, hfields, hphase, Json.withDefault_text, hfailing, truncate]

/-! ## The version -/

namespace Metadata

variable {m : Metadata} {ms : List (String × Json)}

theorem ofJson?_eq_some :
    ofJson? (.obj ms) = some m ↔
      isRest (.obj ms) ∧ field? "name" Json.asText? ms = some m.name ∧
      field? "generation" Json.asInt64? ms = some m.generation ∧
      field? "labels" labelsOfJson? ms = some m.labels ∧
      field? "resourceVersion" Json.asText? ms = some m.resourceVersion := by
  unfold ofJson?
  by_cases hrest : isRest (.obj ms)
  · cases m
    simp only [hrest, if_true, Option.bind_eq_bind, Option.bind_eq_some_iff, Option.pure_def,
      Option.some.injEq, mk.injEq, true_and]
    constructor
    · rintro ⟨_, hname, _, hgeneration, _, hlabels, _, hversion, rfl, rfl, rfl, rfl⟩
      exact ⟨hname, hgeneration, hlabels, hversion⟩
    · rintro ⟨hname, hgeneration, hlabels, hversion⟩
      exact ⟨_, hname, _, hgeneration, _, hlabels, _, hversion, rfl, rfl, rfl, rfl⟩
  · simp [hrest]

theorem isRest_setMember (h : isRest (.obj ms)) (version : String) :
    isRest (.obj (setMember "resourceVersion" (.str version) ms)) := by
  unfold isRest Json.isObjectOf at h ⊢
  rw [List.all_eq_true] at h ⊢
  intro e he
  rcases List.mem_append.1 he with he | he
  · exact h e (List.mem_filter.1 he).1
  · rw [List.mem_singleton.1 he]
    simp

/-- The version that a patch names takes the place of the one before. -/
theorem ofJson?_patched {j : Json} (h : ofJson? j = some m) (version : String) :
    ofJson? (merge j (.obj [("resourceVersion", .str version)])) =
      some { m with resourceVersion := some version } := by
  cases j with
  | obj ms =>
    obtain ⟨hrest, hname, hgeneration, hlabels, -⟩ := ofJson?_eq_some.1 h
    have hmerge : merge (.obj ms) (.obj [("resourceVersion", .str version)]) =
        .obj (setMember "resourceVersion" (.str version) ms) := rfl
    have hkeep {α : Type} {name : String} (read : Json → Option α) (hn : name ≠ "resourceVersion") :
        field? name read (setMember "resourceVersion" (.str version) ms) = field? name read ms := by
      unfold field?
      rw [Json.filter_setMember, if_neg hn]
    rw [hmerge, ofJson?_eq_some, hkeep _ (by decide), hkeep _ (by decide), hkeep _ (by decide)]
    refine ⟨isRest_setMember hrest version, hname, hgeneration, hlabels, ?_⟩
    exact field?_of_filter .str nofun Json.asText?_str (by simp [Json.member?])
  | _ => cases h

end Metadata

/-! ## The record -/

namespace Server

variable {ms : List (String × Json)} {server : Server}

/-- What the fields of a record are read as, where it is an object. -/
theorem ofJson?_eq_some {metadata spec : Json} {status : Option Json}
    (hf : fields? ["metadata", "spec", "status"] (.obj ms) = some [some metadata, some spec, status]) :
    ofJson? (.obj ms) = some server ↔
      Metadata.ofJson? metadata = some server.metadata ∧ ServerSpec.ofJson? spec = some server.spec ∧
      optional ServerStatus.ofJson? status = some server.status := by
  unfold ofJson?
  rw [hf]
  cases server
  simp only [Bool.false_and, Bool.false_eq_true, if_false, Option.bind_eq_bind,
    Option.bind_eq_some_iff, Option.pure_def, Option.some.injEq, mk.injEq]
  constructor
  · rintro ⟨_, hmetadata, _, hspec, _, hstatus, rfl, rfl, rfl⟩
    exact ⟨hmetadata, hspec, hstatus⟩
  · rintro ⟨hmetadata, hspec, hstatus⟩
    exact ⟨_, hmetadata, _, hspec, _, hstatus, rfl, rfl, rfl⟩

/-- Metadata and spec are there in every record. -/
theorem fields?_of_ofJson? (h : ofJson? (.obj ms) = some server) :
    ∃ metadata spec, ms.lookup "metadata" = some metadata ∧ ms.lookup "spec" = some spec ∧
      fields? ["metadata", "spec", "status"] (.obj ms) =
        some [some metadata, some spec, ms.lookup "status"] := by
  unfold ofJson? at h
  cases hf : fields? ["metadata", "spec", "status"] (.obj ms) with
  | none => simp [hf] at h
  | some fields =>
    obtain ⟨-, rfl⟩ := Json.countP_of_fields? hf
    rw [hf] at h
    simp only [List.map_cons, List.map_nil] at h ⊢
    cases hmetadata : ms.lookup "metadata" with
    | none => simp [hmetadata] at h
    | some metadata =>
      cases hspec : ms.lookup "spec" with
      | none => simp [hmetadata, hspec] at h
      | some spec => exact ⟨metadata, spec, rfl, rfl, rfl⟩

/-- The record at the version that a patch names, or at its own if it names none. -/
def patchedAt (server : Server) (version : Option String) : Server :=
  { server with metadata :=
      { server.metadata with resourceVersion := version.or server.metadata.resourceVersion } }

/-- A patch of one field, be it spec or status, for a version. -/
theorem ofJson?_patched {name : String} {changes : List (String × Json)} {spec : ServerSpec}
    {status : Option ServerStatus} (h : ofJson? (.obj ms) = some server) (hn : name ≠ "metadata")
    (hspec : ∀ j, field ms [(name, .obj changes)] "spec" = some j → ServerSpec.ofJson? j = some spec)
    (hstatus : optional ServerStatus.ofJson? (field ms [(name, .obj changes)] "status") = some status)
    (version : Option String) :
    ofJson? (merge (.obj ms) (.obj ((name, .obj changes) :: Patch.versionMember version))) =
      some (({ server with spec, status } : Server).patchedAt version) := by
  obtain ⟨metadata, oldSpec, hmetadata, holdSpec, hf⟩ := fields?_of_ofJson? h
  obtain ⟨hcount, -⟩ := Json.countP_of_fields? hf
  obtain ⟨hm, -, -⟩ := (ofJson?_eq_some hf).1 h
  -- Where the patch names no version, the metadata stays.
  let metadata' := version.elim metadata fun v => merge metadata (.obj [("resourceVersion", .str v)])
  have hm' : Metadata.ofJson? metadata' =
      some (({ server with spec, status } : Server).patchedAt version).metadata := by
    cases version with
    | none => exact hm
    | some v => exact Metadata.ofJson?_patched hm v
  have hfield (n : String) (hne : n ≠ "metadata") :
      field ms ((name, .obj changes) :: Patch.versionMember version) n =
        field ms [(name, .obj changes)] n := by
    simp [field, SortedMap.lookup_cons, Patch.versionMember, hne]
  have hfieldMetadata :
      field ms ((name, .obj changes) :: Patch.versionMember version) "metadata" = some metadata' := by
    cases version <;>
      simp [field, SortedMap.lookup_cons, Patch.versionMember, hn.symm, hmetadata, metadata']
  obtain ⟨spec', hspec'⟩ : ∃ j, field ms [(name, .obj changes)] "spec" = some j := by
    by_cases hs : "spec" = name <;> simp [field, SortedMap.lookup_cons, hs, holdSpec]
  have hpatched : fields? ["metadata", "spec", "status"]
      (merge (.obj ms) (.obj ((name, .obj changes) :: Patch.versionMember version))) =
        some [some metadata', some spec', field ms [(name, .obj changes)] "status"] := by
    have hnodup : (((name, Json.obj changes) :: Patch.versionMember version).map Prod.fst).Nodup := by
      cases version <;> simp [Patch.versionMember, Json.member?, hn]
    rw [Json.fields?_merge hnodup (.obj ms) fun n hmem _ => hcount n hmem]
    simp only [List.map_cons, List.map_nil, members, hfieldMetadata, hfield "spec" (by decide),
      hfield "status" (by decide), hspec']
  exact (ofJson?_eq_some hpatched).2 ⟨hm', hspec spec' hspec', hstatus⟩

theorem ofJson?_patched_status (h : ofJson? (.obj ms) = some server) (version : Option String)
    {status : ServerStatus} (hd : status.Dated) :
    ofJson? (merge (.obj ms) (Patch.status version status)) =
      some ((server.withStatus status.truncate).patchedAt version) := by
  obtain ⟨metadata, spec, -, hspec, hf⟩ := fields?_of_ofJson? h
  obtain ⟨-, hs, -⟩ := (ofJson?_eq_some hf).1 h
  refine ofJson?_patched h (by decide) ?_ ?_ version
  · intro j hj
    have hkept : field ms [("status", .obj (Patch.statusFields status))] "spec" = some spec := by
      simp [field, SortedMap.lookup_cons, hspec]
    rw [← Option.some.inj (hkept.symm.trans hj), hs]
  · have hread := ServerStatus.ofJson?_patched hd ((ms.lookup "status").getD .null)
    have hfield : field ms [("status", .obj (Patch.statusFields status))] "status" =
        some (merge ((ms.lookup "status").getD .null) (.obj (Patch.statusFields status))) := by
      simp [field]
    refine (congrArg _ hfield).trans ?_
    rw [Json.optional_some (by simp [merge]), hread]
    rfl

/-- The spec of the record is written as an object. -/
def HasSpecObject (ms : List (String × Json)) : Prop := ∃ fields, ms.lookup "spec" = some (.obj fields)

theorem ofJson?_patched_powerState (h : ofJson? (.obj ms) = some server) (version : Option String)
    (state : PowerState) :
    (HasSpecObject ms → ofJson? (merge (.obj ms) (Patch.powerState version state)) =
      some ((server.withPowerState state).patchedAt version)) ∧
    (¬ HasSpecObject ms → ofJson? (merge (.obj ms) (Patch.powerState version state)) =
      some (({ server with spec := { powerState := some state } } : Server).patchedAt version)) := by
  obtain ⟨metadata, spec, -, hspec, hf⟩ := fields?_of_ofJson? h
  obtain ⟨-, hs, hstatus⟩ := (ofJson?_eq_some hf).1 h
  have hpatched {spec' : ServerSpec}
      (hread : ServerSpec.ofJson? (merge spec (.obj [("powerState", state.toJson)])) = some spec') :
      ofJson? (merge (.obj ms) (Patch.powerState version state)) =
        some (({ server with spec := spec' } : Server).patchedAt version) := by
    refine ofJson?_patched h (by decide) ?_ ?_ version
    · intro j hj
      have hchanged : field ms [("spec", .obj [("powerState", state.toJson)])] "spec" =
          some (merge spec (.obj [("powerState", state.toJson)])) := by
        simp [field, hspec]
      rw [← Option.some.inj (hchanged.symm.trans hj), hread]
    · simp [field, SortedMap.lookup_cons, hstatus]
  constructor
  · rintro ⟨fields, hobj⟩
    rw [hspec] at hobj
    cases hobj
    exact hpatched (ServerSpec.ofJson?_patched hs state)
  · intro hno
    cases spec with
    | obj fields => exact absurd ⟨fields, hspec⟩ hno
    | arr items => exact hpatched (ServerSpec.ofJson?_patched_arr items state)
    | _ => cases hs

end Server

/-! ## The same write in memory -/

namespace Store

/-- The record that a write of a status leaves, which went through. -/
theorem get_updateStatus {s : Store} {name : String} {server : Server} {version : Option String}
    {status : ServerStatus} (hg : s.get name = some server)
    (hok : (s.updateStatus name version status).1.isOk) :
    (s.updateStatus name version status).2.get name =
      some ((server.withStatus status).withVersion s.nextVersion) := by
  obtain ⟨found, hfound, -, hw⟩ := write_ok hok
  obtain rfl := Option.some.inj (hg.symm.trans hfound)
  rw [show (s.updateStatus name version status).2 = _ from hw, get_commit, if_pos rfl]

theorem get_updatePowerState {s : Store} {name : String} {server : Server} {version : Option String}
    {state : PowerState} (hg : s.get name = some server)
    (hok : (s.updatePowerState name version state).1.isOk) :
    (s.updatePowerState name version state).2.get name =
      some ((server.withPowerState state).withVersion s.nextVersion) := by
  obtain ⟨found, hfound, -, hw⟩ := write_ok hok
  obtain rfl := Option.some.inj (hg.symm.trans hfound)
  rw [show (s.updatePowerState name version state).2 = _ from hw, get_commit, if_pos rfl]

end Store

/-- The record with its status in whole seconds. -/
def Server.inWholeSeconds (s : Server) : Server :=
  { s with status := s.status.map ServerStatus.truncate }

/-! ## Main theorem -/

/-- A record that is written as an object, and patched for a version or for none:
* the patch of a status puts it in place of the one before, in whole seconds;
* the patch of a desired state changes nothing else where the spec is written as an object, and takes
  the place of a spec that is written as an array;
* nothing but this and the version, where the patch names one, changes;
* a write to the record in memory that goes through leaves the record that the patch leaves, once that
  has its version, and but for the fractions of a second. -/
theorem patches_replace {ms : List (String × Json)} {server : Server}
    (h : Server.ofJson? (.obj ms) = some server) (version : Option String) :
    (∀ status : ServerStatus, status.Dated →
      Server.ofJson? (merge (.obj ms) (Patch.status version status)) =
        some ((server.withStatus status.truncate).patchedAt version)) ∧
    (∀ state, Server.HasSpecObject ms →
      Server.ofJson? (merge (.obj ms) (Patch.powerState version state)) =
        some ((server.withPowerState state).patchedAt version)) ∧
    (∀ state, ¬ Server.HasSpecObject ms →
      Server.ofJson? (merge (.obj ms) (Patch.powerState version state)) =
        some (({ server with spec := { powerState := some state } } : Server).patchedAt version)) ∧
    ∀ (s : Store) (name : String), s.get name = some server →
      (∀ status : ServerStatus, status.Dated → (s.updateStatus name version status).1.isOk →
        (Server.ofJson? (merge (.obj ms) (Patch.status version status))).map
            (·.withVersion s.nextVersion) =
          ((s.updateStatus name version status).2.get name).map Server.inWholeSeconds) ∧
      ∀ state, Server.HasSpecObject ms → (s.updatePowerState name version state).1.isOk →
        (Server.ofJson? (merge (.obj ms) (Patch.powerState version state))).map
            (·.withVersion s.nextVersion) =
          (s.updatePowerState name version state).2.get name := by
  refine ⟨fun _ => Server.ofJson?_patched_status h version,
    fun state => (Server.ofJson?_patched_powerState h version state).1,
    fun state => (Server.ofJson?_patched_powerState h version state).2, ?_⟩
  intro s name hg
  constructor
  · intro status hd hok
    rw [Server.ofJson?_patched_status h version hd, Store.get_updateStatus hg hok]
    rfl
  · intro state hobj hok
    rw [(Server.ofJson?_patched_powerState h version state).1 hobj, Store.get_updatePowerState hg hok]
    rfl

/-- A failed machine with members that nobody knows is patched to a status without phase, message or
streak; and its desired state is patched at a version. -/
theorem patches_replace_failed :
    let failed : Json := .obj
      [("status", .str "failed"), ("message", .str "lost"), ("failureCount", .int 3), ("x", .null)]
    let ms := [("x", .int 1), ("metadata", .obj [("uid", .str "u"), ("resourceVersion", .str "4")]),
      ("spec", .obj [("type", .str "wol"), ("powerState", .str "off")]), ("status", failed)]
    let server : Server :=
      { metadata := { resourceVersion := some "4" }
        spec := { controlType := some .wol, powerState := some .off }
        status := some { phase := some .failed, message := "lost", failureCount := 3 } }
    Server.ofJson? (.obj ms) = some server ∧ ServerStatus.Dated {} ∧ Server.HasSpecObject ms ∧
      Server.ofJson? (merge (.obj ms) (Patch.status none {})) =
        some ((server.withStatus {}).patchedAt none) ∧
      Server.ofJson? (merge (.obj ms) (Patch.powerState (some "7") .on)) =
        some ((server.withPowerState .on).patchedAt (some "7")) := by
  intro failed ms server
  have hr : Server.ofJson? (.obj ms) = some server := by decide +kernel
  have hdated : ServerStatus.Dated {} := nofun
  have hobj : Server.HasSpecObject ms := ⟨_, rfl⟩
  exact ⟨hr, hdated, hobj, (patches_replace hr none).1 {} hdated,
    (patches_replace hr (some "7")).2.1 .on hobj⟩

/-- A spec that is written as an array of its fields loses all of them to the patch of a desired state. -/
theorem patched_array_loses_type :
    let ms : List (String × Json) := [("metadata", .obj []), ("spec", .arr [.null, .str "wol"])]
    (Server.ofJson? (.obj ms)).map (·.spec) = some { controlType := some .wol } ∧
      (Server.ofJson? (merge (.obj ms) (Patch.powerState none .on))).map (·.spec) =
        some { powerState := some .on } := by
  decide +kernel

end MetalPool
