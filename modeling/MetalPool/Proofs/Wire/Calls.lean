import Mathlib.Data.List.TakeWhile
import MetalPool.Proofs.Pool.Runs
import MetalPool.Proofs.Wire.Protocol
/-!
# Calls in bytes

A call in bytes comes to what the call comes to (`wire_agrees`). A message is read
back from its fields, also where these stand in another order or between fields that
the message does not have (`decode?_of_encodes`), unless groups nest too deep among
those, and then it is refused (`encodes_or_refused`). A session that serves bytes is
the session of the request in them, and ends with a form of the response
(`hold_serveBytes`).
-/

namespace MetalPool

open Wire

variable {α : Type} {depth : Nat}

/-! ## Messages -/

namespace Wire

/-- The bytes are the fields of the message in one of their forms, in any order and with well-formed fields
of other numbers between them, and no more than a length of 64 bits counts. As many levels of groups may
be open in the other fields as `depth` says. -/
def Encodes (c : Codec α) (depth : Nat) (a : α) (bs : Bytes) : Prop :=
  bs.length < 18446744073709551616 ∧
    ∃ chunks, Message.Mixes c depth a chunks ∧ (chunks.map Prod.snd).flatten = bs

variable {m : Message α} {a : α} {bs : Bytes}

theorem decode?_of_encodes (h : Encodes m.codec maxDepth a bs) (hheight : m.height ≤ maxDepth) :
    m.codec.decode? bs = some a := by
  obtain ⟨hsize, chunks, hmixes, rfl⟩ := h
  refine Message.Form.decode? (Message.form_of_mixes hmixes hheight fun chunk hchunk => ?_)
  exact Nat.lt_of_le_of_lt (Message.length_le_flatten hchunk) hsize

/-- A message with deeper groups in its other fields than messages may nest is refused. -/
theorem encodes_or_refused (h : Encodes m.codec depth a bs) (hheight : m.height ≤ maxDepth) :
    Encodes m.codec maxDepth a bs ∨ m.codec.decode? bs = none := by
  obtain ⟨hsize, chunks, hmixes, rfl⟩ := h
  refine (Message.mixes_or_refused hmixes hheight fun chunk hchunk => ?_).imp_left
    fun hmixes => ⟨hsize, chunks, hmixes, rfl⟩
  exact Nat.lt_of_le_of_lt (Message.length_le_flatten hchunk) hsize

theorem encodes_of_writes (h : m.codec.Writes a bs) (hsize : bs.length < 18446744073709551616) :
    Encodes m.codec depth a bs :=
  ⟨hsize, Message.mixes_of_writes depth h⟩

/-- A number of 64 bits takes a key and ten bytes at most. -/
theorem length_encode_int64_le (n : Int64) : (int64Codec.encode n).length ≤ 11 := by
  have hbits := Scalar.toNat_emod_lt n.toInt
  have hlength := length_writeVarint_le (k := 9) (Nat.lt_trans hbits (by decide))
  have hkey : (writeKey 1 0).length = 1 := by simp [writeKey, writeVarint]
  unfold Codec.encode int64Codec FieldCodec.int64 writeNumber
  simp only [List.flatMap_cons, List.flatMap_nil, List.append_nil, id]
  split
  · simp
  · rw [List.flatten_singleton, List.length_append, hkey]
    omega

/-- A number packed for a response is read back from its bytes. -/
theorem decode?_ofInt64 (n : Int64) : int64Codec.decode? (PackedMessage.ofInt64 n).value = some n := by
  have hsize : (int64Codec.encode n).length < 18446744073709551616 :=
    Nat.lt_of_le_of_lt (length_encode_int64_le n) (by decide)
  have hencodes : Encodes int64Message.codec maxDepth n (int64Codec.encode n) :=
    encodes_of_writes (int64Codec.writes_encode n) hsize
  exact decode?_of_encodes hencodes (by decide)

theorem isKey_groupStart : IsKey 15 .groupStart [0x7b] := by
  have hkey : writeKey 15 3 = [0x7b] := by simp [writeKey, writeVarint]
  rw [← hkey]
  exact isKey_write rfl (by decide) (by decide) (by decide)

theorem isKey_groupEnd : IsKey 15 .groupEnd [0x7c] := by
  have hkey : writeKey 15 4 = [0x7c] := by simp [writeKey, writeVarint]
  rw [← hkey]
  exact isKey_write rfl (by decide) (by decide) (by decide)

end Wire

/-! ## Sessions -/

/-- The character does not end a path. -/
def Target.staysInPath (c : Char) : Bool := c != '#' && c != '?'

theorem Target.ofText_of_path {text : String} {cs : List Char} (htext : text.toList = '/' :: cs)
    (h : cs.all staysInPath) : ofText text = ⟨text, none⟩ := by
  have hall : ∀ c ∈ '/' :: cs, (c != '#') = true ∧ (c != '?') = true := by
    intro c hc
    rcases List.mem_cons.1 hc with rfl | hc
    · decide
    · simpa only [staysInPath, Bool.and_eq_true] using List.all_eq_true.1 h c hc
  have hhash : ('/' :: cs).takeWhile (· != '#') = '/' :: cs :=
    List.takeWhile_eq_self_iff.2 fun c hc => (hall c hc).1
  have hpath : ('/' :: cs).takeWhile (· != '?') = '/' :: cs :=
    List.takeWhile_eq_self_iff.2 fun c hc => (hall c hc).2
  have hquery : ('/' :: cs).dropWhile (· != '?') = [] :=
    List.dropWhile_eq_nil_iff.2 fun c hc => (hall c hc).2
  unfold ofText
  simp only [htext, ofChars, hhash, hpath, hquery]
  rw [← htext, String.ofList_toList]

namespace RpcMethod

theorem ofTarget?_path (m : RpcMethod) : ofTarget? m.path = some m := by
  have hservice : servicePath.toList.tail.all Target.staysInPath = true := by decide +kernel
  have hname : m.name.toList.all Target.staysInPath = true := by cases m <;> decide +kernel
  have hpath : m.path.toList = '/' :: (servicePath.toList.tail ++ m.name.toList) := by
    unfold path
    rw [String.toList_append]
    rfl
  have htarget : Target.ofText m.path = ⟨m.path, none⟩ := by
    refine Target.ofText_of_path hpath ?_
    rw [List.all_append, hservice, hname]
    rfl
  unfold ofTarget?
  rw [htarget]
  cases m <;> rfl

/-- What goes back to a remote caller in bytes. -/
def reply (m : RpcMethod) (writer : ResponseWriter) : Except PoolError m.Response → Except RpcStatus Bytes
  | .ok response => Pool.frame (writer.write m response)
  | .error e => .error e.toStatus.received

end RpcMethod

namespace Pool

variable {writer : ResponseWriter} {m : RpcMethod} {bs : Bytes}

/-- The session that serves bytes is the session of the request in them. -/
theorem hold_serveBytes {σ : Type} (answer : (r : StoreRequest) → σ → Except StoreError r.Answer × σ)
    {request : m.Request} (hsize : bs.length ≤ maxRequestLength)
    (h : m.requestCodec.decode? bs = some request) (t : σ) :
    (serveBytes writer m.path bs).hold answer t =
      (m.reply writer ((handle m request).run.hold answer t).1, ((handle m request).run.hold answer t).2) := by
  unfold serveBytes
  simp only [m.ofTarget?_path, h, if_neg (Nat.not_lt.2 hsize)]
  refine (Session.hold_bind answer (Pool.serve m request) _ t).trans ?_
  rw [hold_serve]
  obtain ⟨result, after⟩ := (handle m request).run.hold answer t
  cases result <;> rfl

theorem serveBytes_undecodable (hsize : bs.length ≤ maxRequestLength)
    (h : m.requestCodec.decode? bs = none) : serveBytes writer m.path bs = return .error undecodable := by
  unfold serveBytes
  simp only [m.ofTarget?_path, h, if_neg (Nat.not_lt.2 hsize)]

theorem serveBytes_oversized (h : maxRequestLength < bs.length) :
    serveBytes writer m.path bs = return .error (oversizedRequest bs.length) := by
  unfold serveBytes
  simp only [m.ofTarget?_path, if_pos h]

/-- What is served for a request has no more bytes than a length of 64 bits counts. -/
theorem lt_of_le_maxRequestLength (h : bs.length ≤ maxRequestLength) :
    bs.length < 18446744073709551616 :=
  Nat.lt_of_le_of_lt h (by decide)

/-- Every message is read back from its fields in any order and with other fields between them, and so from
whatever is written for it; only where groups nest too deep in the other fields is it refused.

Bytes of this kind are served as the request that they stand for: the same is asked of the store, and back
to the caller goes a form of the response, or the status of the refusal. Requests with groups that nest too
deep and requests that are too long are refused, and nothing is asked of the store.

A number of 64 bits that is packed for a response is read back from its bytes. -/
theorem wire_agrees :
    (∀ (t : MessageType) (a : t.Value),
      t.codec.Writes a (t.codec.encode a) ∧
      (∀ bs, t.codec.Writes a bs → bs.length < 18446744073709551616 → Encodes t.codec maxDepth a bs) ∧
      (∀ bs, Encodes t.codec maxDepth a bs → t.codec.decode? bs = some a) ∧
      ∀ depth bs, Encodes t.codec depth a bs → ¬Encodes t.codec maxDepth a bs →
        t.codec.decode? bs = none) ∧
    (∀ (writer : ResponseWriter) (m : RpcMethod) {σ : Type}
      (answer : (r : StoreRequest) → σ → Except StoreError r.Answer × σ) (t : σ),
      (∀ (request : m.Request) (bs : Bytes), bs.length ≤ maxRequestLength →
        (m.requestCodec.Writes request bs → Encodes m.requestCodec maxDepth request bs) ∧
        (Encodes m.requestCodec maxDepth request bs →
          (serveBytes writer m.path bs).hold answer t =
            (m.reply writer ((handle m request).run.hold answer t).1,
              ((handle m request).run.hold answer t).2)) ∧
        ∀ depth, Encodes m.requestCodec depth request bs → ¬Encodes m.requestCodec maxDepth request bs →
          (serveBytes writer m.path bs).hold answer t = (.error undecodable, t)) ∧
      ∀ bs : Bytes, maxRequestLength < bs.length →
        (serveBytes writer m.path bs).hold answer t = (.error (oversizedRequest bs.length), t)) ∧
    ∀ n : Int64, int64Codec.decode? (PackedMessage.ofInt64 n).value = some n := by
  refine ⟨fun t a => ?_, fun writer m σ answer t => ⟨fun request bs hsize => ?_, fun bs h => ?_⟩, fun n => ?_⟩
  · rw [← t.codec_message]
    refine ⟨Codec.writes_encode _ a, fun bs => encodes_of_writes, fun bs h => ?_, fun depth bs h hdeep => ?_⟩
    · exact decode?_of_encodes h t.height_message
    · exact (encodes_or_refused h t.height_message).resolve_left hdeep
  · rw [← m.codec_requestMessage]
    refine ⟨fun h => encodes_of_writes h (lt_of_le_maxRequestLength hsize), fun h => ?_,
      fun depth h hdeep => ?_⟩
    · refine hold_serveBytes answer hsize ?_ t
      rw [← m.codec_requestMessage]
      exact decode?_of_encodes h m.height_requestMessage
    · rw [serveBytes_undecodable hsize]
      · rfl
      · rw [← m.codec_requestMessage]
        exact (encodes_or_refused h m.height_requestMessage).resolve_left hdeep
  · rw [serveBytes_oversized h]
    rfl
  · exact decode?_ofInt64 n

/-- The group's id in front of a machine whose labels stand out of order, and a group of no fields between
them. -/
theorem wire_agrees_mixed :
    let labels : List (String × String) := [("zone", "a"), ("rack", "b")]
    let node : Node := { name := "m1", labels := .ofList labels }
    let nodeBytes := writeDelimited 2 (Bytes.ofText "m1") ++ (textEntry.encodeItems 3 labels).flatten
    let request : DeleteNodesRequest := { nodes := [node], id := groupId }
    let bs := writeDelimited 2 (Bytes.ofText groupId) ++ [0x7b, 0x7c] ++ writeDelimited 1 nodeBytes
    let s : Store := Store.insert {} { metadata := { name := some "m1" }, spec := { powerState := some .on } }
    Encodes DeleteNodesRequest.codec maxDepth request bs ∧ bs.length ≤ maxRequestLength ∧
      DeleteNodesRequest.codec.decode? bs = some request ∧
      ((serveBytes .sorted RpcMethod.deleteNodes.path bs).run s).1 = .ok [] ∧
      (((serveBytes .sorted RpcMethod.deleteNodes.path bs).run s).2.get "m1").map (·.spec.powerState) =
        some (some .off) := by
  intro labels node nodeBytes request bs s
  have hlabels : labels.Perm node.labels.entries := by decide
  have hnode : Node.codec.Writes node nodeBytes := by
    refine ⟨Node.codec.fields.zip
      [[], [writeDelimited 2 (Bytes.ofText "m1")], textEntry.encodeItems 3 labels, []], rfl, ?_, ?_⟩
    · simp only [Node.codec, List.zip_cons_cons, List.zip_nil_left, List.forall_mem_cons]
      exact ⟨rfl, rfl, ⟨labels, hlabels, Codec.writesItems_encodeItems ..⟩,
        ⟨[], .refl _, [], rfl, List.forall_mem_nil _, rfl⟩, List.forall_mem_nil _⟩
    · simp [Node.codec, nodeBytes]
  have hencodes : Encodes DeleteNodesRequest.codec maxDepth request bs := by
    refine ⟨by decide +kernel, [(2, writeDelimited 2 (Bytes.ofText groupId)), (15, [0x7b, 0x7c]),
      (1, writeDelimited 1 nodeBytes)], ⟨?_, ?_⟩, ?_⟩
    · refine List.forall_mem_cons.2 ⟨?_, List.forall_mem_singleton.2 rfl⟩
      exact ⟨[(node, nodeBytes)], rfl, List.forall_mem_singleton.2 hnode, rfl⟩
    · intro chunk hchunk hother
      simp only [List.mem_cons, List.not_mem_nil, or_false] at hchunk
      rcases hchunk with rfl | rfl | rfl
      · exact absurd rfl (hother _ (List.mem_cons_of_mem _ List.mem_cons_self))
      · exact ⟨.group, .groups isKey_groupStart isKey_groupEnd (n := 0) (by decide)⟩
      · exact absurd rfl (hother _ List.mem_cons_self)
    · simp [bs]
  have hsize : bs.length ≤ maxRequestLength := by decide +kernel
  have hserved : (serveBytes .sorted RpcMethod.deleteNodes.path bs).run s = _ :=
    ((wire_agrees.2.1 .sorted .deleteNodes Store.serve s).1 request bs hsize).2.1 hencodes
  rw [hserved]
  exact ⟨hencodes, hsize, (wire_agrees.1 .deleteNodesRequest request).2.2.1 bs hencodes, by decide +kernel,
    by decide +kernel⟩

/-- Groups of another number inside each other are well-formed however many there are, but with more levels
than messages may nest the message is refused. A request that is too long is refused for its length, whatever
there is to say of the request. -/
theorem deep_groups_and_long_requests_are_refused :
    (let bs : Bytes := List.replicate 101 0x7b ++ List.replicate 101 0x7c;
      Encodes NodeGroup.codec 101 {} bs ∧ NodeGroup.codec.decode? bs = none) ∧
    let request : GroupRequest := { id := .ofList (List.replicate maxRequestLength 'a') }
    let bs := GroupRequest.codec.encode request
    ((serveBytes .sorted RpcMethod.targetSize.path bs).run {}).1 = .error (oversizedRequest bs.length) ∧
      ((handle .targetSize request).run.run {}).1 = .error (.unknownNodeGroup request.id) := by
  constructor
  · intro bs
    refine ⟨⟨by decide +kernel, [(15, bs)], ⟨?_, ?_⟩, List.append_nil bs⟩, by decide +kernel⟩
    · simp only [NodeGroup.codec, List.forall_mem_cons]
      exact ⟨rfl, rfl, rfl, rfl, List.forall_mem_nil _⟩
    · intro chunk hchunk _
      obtain rfl := List.mem_singleton.1 hchunk
      exact ⟨.group, .groups isKey_groupStart isKey_groupEnd (n := 100) (by decide)⟩
  · intro request bs
    have hhead : request.id.toList.head? = some 'a' := by
      rw [String.toList_ofList, List.head?_replicate]
      rfl
    have hid : request.id ≠ groupId := fun he => by
      rw [he] at hhead
      exact absurd hhead (by decide)
    have hempty : request.id ≠ "" := fun he => by
      rw [he] at hhead
      cases hhead
    have hbs : bs = writeDelimited 1 (Bytes.ofText request.id) := by
      simp [bs, Codec.encode, GroupRequest.codec, FieldCodec.text, hempty]
    have hlength : maxRequestLength < bs.length := by
      have htext := Bytes.length_le_ofText (List.replicate maxRequestLength 'a')
      rw [List.length_replicate] at htext
      rw [hbs]
      exact Nat.lt_of_le_of_lt htext (length_lt_writeDelimited ..)
    refine ⟨?_, ?_⟩
    · rw [serveBytes_oversized hlength]
      rfl
    · simp only [handle, targetSize, checkGroup, if_neg hid]
      rfl

end Pool

end MetalPool
