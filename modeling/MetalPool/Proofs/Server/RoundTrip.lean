import MetalPool.Proofs.Json.Fields
import MetalPool.Proofs.Json.RoundTrip
import MetalPool.Proofs.Timestamp.RoundTrip
import MetalPool.Server.Record
/-!
# Written records are read back

A record is written with the fields that are always there and those that are
set, and every field that is left out stands for what the record has there. So
what is written is read back as it was, one lemma for each kind of record; only
a time has to be in a year that is written without a sign. And what is written
is plain, so it is the same from its text.

Other texts of a record, with unknown fields, without those that have a default
or with times of other offsets, lead to the one that is written: reading and
writing again normalizes them (`records_round_trip`).
-/

namespace MetalPool

open Json (fields? fields?_obj optional optional_map optional_some withDefault member? Plain
  PlainMembers plainMembers_member?)

/-! ## Choices and times -/

theorem PowerState.ofJson?_toJson (p : PowerState) : ofJson? p.toJson = some p := by
  cases p <;> decide

theorem ControlType.ofJson?_toJson (c : ControlType) : ofJson? c.toJson = some c := by
  cases c <;> decide

theorem Phase.ofJson?_toJson (p : Phase) : ofJson? p.toJson = some p := by
  cases p <;> decide

theorem Timestamp.ofJson?_str (text : String) : ofJson? (.str text) = parse? text := by
  unfold ofJson?
  rw [Json.asText?_str, Option.bind_some]

theorem Timestamp.ofJson?_toJson {t : Timestamp} (h : t.Dated) : ofJson? t.toJson = some t := by
  unfold toJson
  rw [ofJson?_str, parse?_toText h]

/-! ## Control parameters -/

theorem IpmiControl.ofJson?_toJson (c : IpmiControl) : ofJson? c.toJson = some c := by
  have hfields : fields? ["address", "username", "password"] c.toJson =
      some [some (.str c.address), some (.str c.username), some (.str c.password)] := by
    unfold toJson
    rw [fields?_obj (by simp [List.countP_cons])]
    simp [SortedMap.lookup_cons]
  simp [ofJson?, hfields]

theorem WolControl.ofJson?_toJson (c : WolControl) : ofJson? c.toJson = some c := by
  have hfields : fields? ["address", "macAddress", "port", "broadcastAddress", "user"] c.toJson =
      some [some (.str c.address), some (.str c.macAddress), some (.int c.port.toNat),
        c.broadcastAddress.map .str, c.user.map .str] := by
    unfold toJson
    rw [fields?_obj (by simp [List.countP_cons, Bool.toNat_le])]
    simp [SortedMap.lookup_cons, List.lookup_append]
  simp [ofJson?, hfields]

theorem Control.ofJson?_toJson (c : Control) : ofJson? c.toJson = some c := by
  have hfields : fields? ["ipmi", "wol"] c.toJson =
      some [c.ipmi.map IpmiControl.toJson, c.wol.map WolControl.toJson] := by
    unfold toJson
    rw [fields?_obj (by simp [Bool.toNat_le])]
    simp [List.lookup_append]
  have hipmi : optional IpmiControl.ofJson? (c.ipmi.map IpmiControl.toJson) = some c.ipmi :=
    optional_map nofun fun i _ => i.ofJson?_toJson
  have hwol : optional WolControl.ofJson? (c.wol.map WolControl.toJson) = some c.wol :=
    optional_map nofun fun w _ => w.ofJson?_toJson
  simp [ofJson?, hfields, hipmi, hwol]

/-! ## Spec and status -/

theorem ServerSpec.ofJson?_toJson (s : ServerSpec) : ofJson? s.toJson = some s := by
  have hfields : fields? ["powerState", "type", "control"] s.toJson =
      some [s.powerState.map PowerState.toJson, s.controlType.map ControlType.toJson,
        some s.control.toJson] := by
    unfold toJson
    rw [fields?_obj (by simp [List.countP_cons, Bool.toNat_le])]
    simp [SortedMap.lookup_cons, List.lookup_append]
  have hpower : optional PowerState.ofJson? (s.powerState.map PowerState.toJson) = some s.powerState :=
    optional_map nofun fun p _ => p.ofJson?_toJson
  have htype : optional ControlType.ofJson? (s.controlType.map ControlType.toJson) =
      some s.controlType :=
    optional_map nofun fun c _ => c.ofJson?_toJson
  simp [ofJson?, hfields, hpower, htype, Control.ofJson?_toJson]

/-- The start of the streak of failures is in a year that is written without a sign. -/
def ServerStatus.Dated (s : ServerStatus) : Prop := ∀ t ∈ s.failingSince, t.Dated

theorem ServerStatus.ofJson?_toJson {s : ServerStatus} (h : s.Dated) : ofJson? s.toJson = some s := by
  have hfields : fields? ["status", "message", "failingSince", "failureCount"] s.toJson =
      some [s.phase.map Phase.toJson, if s.message = "" then none else some (.str s.message),
        s.failingSince.map Timestamp.toJson, some (.int s.failureCount.toNat)] := by
    unfold toJson
    by_cases hm : s.message = ""
    · rw [fields?_obj (by simp [hm, List.countP_cons, Bool.toNat_le])]
      simp [hm, SortedMap.lookup_cons, List.lookup_append]
    · rw [fields?_obj (by simp [hm, List.countP_cons, Bool.toNat_le])]
      simp [hm, SortedMap.lookup_cons, List.lookup_append]
  have hphase : optional Phase.ofJson? (s.phase.map Phase.toJson) = some s.phase :=
    optional_map nofun fun p _ => p.ofJson?_toJson
  have hfailing : optional Timestamp.ofJson? (s.failingSince.map Timestamp.toJson) =
      some s.failingSince :=
    optional_map nofun fun t ht => Timestamp.ofJson?_toJson (h t ht)
  simp [ofJson?, hfields, hphase, Json.withDefault_text, hfailing]

/-! ## Metadata -/

theorem labelsOfJson?_labelsToJson (labels : SortedMap String) :
    labelsOfJson? (labelsToJson labels) = some labels := by
  have hentries : (labels.entries.map fun e => (e.1, Json.str e.2)).mapM
      (fun m => (Json.asText? m.2).map fun v => (m.1, v)) = some labels.entries := by
    induction labels.entries with
    | nil => rfl
    | cons e rest ih => simp [ih]
  unfold labelsToJson labelsOfJson?
  simp only [hentries, Option.map_some, SortedMap.ofList_entries]

theorem Metadata.field?_of_filter {α : Type} {name : String} {read : Json → Option α}
    (write : α → Json) {ms : List (String × Json)} {o : Option α} (hnull : ∀ a, write a ≠ .null)
    (hread : ∀ a, read (write a) = some a)
    (hms : ms.filter (·.1 == name) = member? name write o) : field? name read ms = some o := by
  unfold field?
  rw [hms]
  cases o with
  | none => rfl
  | some a =>
    simp [member?, optional_some (hnull a), hread a]

theorem Metadata.ofJson?_toJson (m : Metadata) : ofJson? m.toJson = some m := by
  unfold toJson ofJson?
  generalize hms : member? "generation" (fun g : Int64 => Json.int g.toInt) m.generation ++
    member? "labels" labelsToJson m.labels ++ member? "name" .str m.name ++
    member? "resourceVersion" .str m.resourceVersion = ms
  have hrest : isRest (.obj ms) := by
    simp [← hms, isRest, Json.isObjectOf]
  have hgeneration : field? "generation" Json.asInt64? ms = some m.generation :=
    field?_of_filter (fun g : Int64 => .int g.toInt) nofun Json.asInt64?_int (by simp [← hms])
  have hlabels : field? "labels" labelsOfJson? ms = some m.labels :=
    field?_of_filter labelsToJson nofun labelsOfJson?_labelsToJson (by simp [← hms])
  have hname : field? "name" Json.asText? ms = some m.name :=
    field?_of_filter .str nofun Json.asText?_str (by simp [← hms])
  have hversion : field? "resourceVersion" Json.asText? ms = some m.resourceVersion :=
    field?_of_filter .str nofun Json.asText?_str (by simp [← hms])
  simp [hrest, hgeneration, hlabels, hname, hversion]

/-! ## Records -/

/-- The status, if there is one, is dated. -/
def Server.Dated (s : Server) : Prop := ∀ status ∈ s.status, status.Dated

theorem Server.ofJson?_toJson {s : Server} (h : s.Dated) : ofJson? s.toJson = some s := by
  have hfields : fields? ["metadata", "spec", "status"] s.toJson =
      some [some s.metadata.toJson, some s.spec.toJson, s.status.map ServerStatus.toJson] := by
    unfold toJson
    rw [fields?_obj (by simp [List.countP_cons, Bool.toNat_le])]
    simp [SortedMap.lookup_cons]
  have hstatus : optional ServerStatus.ofJson? (s.status.map ServerStatus.toJson) = some s.status :=
    optional_map nofun fun status hs => ServerStatus.ofJson?_toJson (h status hs)
  unfold ofJson?
  rw [hfields]
  simp [toJson, hstatus, Metadata.ofJson?_toJson, ServerSpec.ofJson?_toJson]

/-! ## Records as texts

No part of a record lies deeper than the labels of its metadata and the two blocks of control parameters. -/

section Plain

variable {room : Nat}

theorem IpmiControl.plain_toJson (c : IpmiControl) : Plain (room + 1) c.toJson := by
  refine .obj (?_ : PlainMembers room _)
  simp [Plain.str]

theorem WolControl.plain_toJson (c : WolControl) : Plain (room + 1) c.toJson := by
  refine .obj (?_ : PlainMembers room _)
  simp [Plain.str, Json.plain_uint16, plainMembers_member? Plain.str]

theorem Control.plain_toJson (c : Control) : Plain (room + 2) c.toJson := by
  refine .obj (?_ : PlainMembers (room + 1) _)
  simp [plainMembers_member? IpmiControl.plain_toJson, plainMembers_member? WolControl.plain_toJson]

theorem ServerSpec.plain_toJson (s : ServerSpec) : Plain (room + 3) s.toJson := by
  have hpower (p : PowerState) : Plain (room + 2) p.toJson := .str p.name
  have htype (c : ControlType) : Plain (room + 2) c.toJson := .str c.name
  refine .obj (?_ : PlainMembers (room + 2) _)
  simp [plainMembers_member? hpower, plainMembers_member? htype, Control.plain_toJson]

theorem ServerStatus.plain_toJson (s : ServerStatus) : Plain (room + 1) s.toJson := by
  have hphase (p : Phase) : Plain room p.toJson := .str p.name
  have htime (t : Timestamp) : Plain room t.toJson := .str t.toText
  have hmessage : PlainMembers room (if s.message = "" then [] else [("message", .str s.message)]) := by
    split <;> simp [Plain.str]
  refine .obj (?_ : PlainMembers room _)
  simp [plainMembers_member? hphase, hmessage, plainMembers_member? htime, Json.plain_uint32]

theorem plain_labelsToJson (labels : SortedMap String) : Plain (room + 1) (labelsToJson labels) := by
  refine .obj fun m hm => ?_
  obtain ⟨e, -, rfl⟩ := List.mem_map.1 hm
  exact .str e.2

theorem Metadata.plain_toJson (m : Metadata) : Plain (room + 2) m.toJson := by
  refine .obj (?_ : PlainMembers (room + 1) _)
  simp [plainMembers_member? Json.plain_int64, plainMembers_member? plain_labelsToJson,
    plainMembers_member? Plain.str]

theorem Server.plain_toJson (s : Server) : Plain (room + 4) s.toJson := by
  refine .obj (?_ : PlainMembers (room + 3) _)
  simp [Plain.str, Metadata.plain_toJson, ServerSpec.plain_toJson,
    plainMembers_member? ServerStatus.plain_toJson]

end Plain

/-! ## Main theorem -/

/-- What is written for `a` is read back, be it as a value or as a text. -/
def Json.RoundTrips {α : Type} (read : Json → Option α) (write : α → Json) (a : α) : Prop :=
  read (write a) = some a ∧ (parse? (write a).print).bind read = some a

theorem Json.roundTrips_of_plain {α : Type} {read : Json → Option α} {write : α → Json} {a : α}
    (hplain : Plain maxDepth (write a)) (hback : read (write a) = some a) :
    RoundTrips read write a := by
  refine ⟨hback, ?_⟩
  rw [parse?_print hplain, Option.bind_some, hback]

/-- Written again, what `j` stands for has a form that stands for the same and is written as itself. -/
def Json.Normalizes {α : Type} (read : Json → Option α) (write : α → Json) (j : Json) : Prop :=
  ∃ normal, (read j).map write = some normal ∧ read normal = read j ∧
    (read normal).map write = some normal

theorem Json.normalizes_of_read {α : Type} {read : Json → Option α} {write : α → Json} {j : Json}
    {a : α} (hj : read j = some a) (hback : read (write a) = some a) : Normalizes read write j := by
  refine ⟨write a, ?_, ?_, ?_⟩
  · rw [hj, Option.map_some]
  · rw [hback, hj]
  · rw [hback, Option.map_some]

/-- Every record is read back as it was written, and every value that stands for a record leads to the
normal form of this record. -/
theorem records_round_trip :
    ((∀ spec, Json.RoundTrips ServerSpec.ofJson? ServerSpec.toJson spec) ∧
      (∀ status : ServerStatus, status.Dated →
        Json.RoundTrips ServerStatus.ofJson? ServerStatus.toJson status) ∧
      ∀ server : Server, server.Dated → Json.RoundTrips Server.ofJson? Server.toJson server) ∧
    (∀ j spec, ServerSpec.ofJson? j = some spec →
      j.Normalizes ServerSpec.ofJson? ServerSpec.toJson) ∧
    (∀ j status, ServerStatus.ofJson? j = some status → status.Dated →
      j.Normalizes ServerStatus.ofJson? ServerStatus.toJson) ∧
    ∀ j server, Server.ofJson? j = some server → server.Dated →
      j.Normalizes Server.ofJson? Server.toJson := by
  refine ⟨⟨?_, ?_, ?_⟩, ?_, ?_, ?_⟩
  · intro spec
    exact Json.roundTrips_of_plain spec.plain_toJson spec.ofJson?_toJson
  · intro status hd
    exact Json.roundTrips_of_plain status.plain_toJson (ServerStatus.ofJson?_toJson hd)
  · intro server hd
    exact Json.roundTrips_of_plain server.plain_toJson (Server.ofJson?_toJson hd)
  · intro j spec hj
    exact Json.normalizes_of_read hj spec.ofJson?_toJson
  · intro j status hj hd
    exact Json.normalizes_of_read hj (ServerStatus.ofJson?_toJson hd)
  · intro j server hj hd
    exact Json.normalizes_of_read hj (Server.ofJson?_toJson hd)

/-- A leap second with a fraction, given at another offset, in a record with a member that nobody knows. -/
theorem records_round_trip_leap :
    let j : Json := .obj
      [("spec", .obj [("color", .str "red"), ("control", .obj [("wol", .obj [])])]),
        ("metadata", .obj [("labels", .obj [("b", .str ""), ("a", .str "1")])]),
        ("status", .obj [("failingSince", .str "2017-01-01 01:59:60.25+02:00")])]
    let leap : Timestamp :=
      ⟨⟨2016, 12, 31, by decide, by decide⟩, 86399, 1250000000, by decide, by decide⟩
    let server : Server :=
      { metadata := { labels := some (SortedMap.ofList [("a", "1"), ("b", "")]) }
        spec := { control := { wol := some {} } }
        status := some { failingSince := some leap } }
    Server.ofJson? j = some server ∧ server.Dated ∧
      Json.RoundTrips Server.ofJson? Server.toJson server ∧ j.Normalizes Server.ofJson? Server.toJson := by
  intro j leap server
  have hj : Server.ofJson? j = some server := by decide +kernel
  have hdated : server.Dated := by
    intro status hs t ht
    cases hs
    cases ht
    exact ⟨by decide, by decide⟩
  obtain ⟨⟨-, -, hback⟩, -, -, hnormal⟩ := records_round_trip
  exact ⟨hj, hdated, hback server hdated, hnormal j server hj hdated⟩

end MetalPool
