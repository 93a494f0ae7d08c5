import MetalPool.Power.Wake
import MetalPool.Proofs.Text.Hex
/-!
# Wake-up packets and the addresses in them

Which texts write the address of a network card is said character by character
(`Writes`), and which bytes wake that card place by place (`WakesUp`), so that
neither the reader nor the writer of the program occurs in them. A sender sends
one packet for a text that writes an address and none for any other text.
-/

namespace MetalPool

open Bytes (hexDigits Spells hexPair)

namespace MacAddress

variable {text text' : String} {bs : Bytes} {mac mac' : MacAddress}

/-! ## Texts that write an address -/

/-- The digits of a text. -/
def digits (text : String) : List Char := text.toList.filter (· ∈ hexDigits)

/-- What is left of a text without its separators and the case of its letters. -/
def plain (text : String) : List Char := (text.toList.filter (!isSeparator ·)).map Char.toLower

/-- A text with twelve digits and nothing but separators beside them. -/
structure Writes (text : String) : Prop where
  characters : ∀ c ∈ text.toList, c ∈ hexDigits ∨ c = ':' ∨ c = '-' ∨ c = '.'
  twelve : text.toList.countP (· ∈ hexDigits) = 12

theorem isSeparator_iff {c : Char} : isSeparator c = true ↔ c = ':' ∨ c = '-' ∨ c = '.' := by
  simp only [isSeparator, Bool.or_eq_true, beq_iff_eq, or_assoc]

theorem isSeparator_of_mem {c : Char} (h : c ∈ hexDigits) : isSeparator c = false := by
  have hall : ∀ c ∈ hexDigits, isSeparator c = false := List.all_iff_forall_prop.1 (by decide)
  exact hall c h

/-- Where there are only digits and separators, leaving these out leaves the digits. -/
theorem filter_eq_digits (h : ∀ c ∈ text.toList, c ∈ hexDigits ∨ c = ':' ∨ c = '-' ∨ c = '.') :
    text.toList.filter (!isSeparator ·) = digits text := by
  refine List.filter_congr fun c hc => ?_
  rcases h c hc with hdigit | hseparator
  · rw [isSeparator_of_mem hdigit, decide_eq_true hdigit]
    rfl
  · have hseparator := isSeparator_iff.2 hseparator
    have hdigit : c ∉ hexDigits := fun hdigit => by
      rw [isSeparator_of_mem hdigit] at hseparator
      cases hseparator
    rw [hseparator, decide_eq_false hdigit]
    rfl

theorem ofBytes?_eq_some_iff : ofBytes? bs = some mac ↔ bs = mac.bytes := by
  unfold ofBytes?
  split
  · rw [Option.some.injEq]
    exact ⟨fun h => h ▸ rfl, fun h => by cases mac; cases h; rfl⟩
  · rename_i hlength
    exact iff_of_false nofun fun h => hlength (h ▸ mac.length_bytes)

/-- A text is read as the address whose bytes its digits spell, where it writes one. -/
theorem parse?_eq_some_iff : parse? text = some mac ↔ Writes text ∧ Spells (digits text) mac.bytes := by
  rw [parse?, Option.bind_eq_some_iff]
  constructor
  · rintro ⟨bs, hbs, hmac⟩
    obtain rfl := ofBytes?_eq_some_iff.1 hmac
    have hs := Bytes.ofHexDigits?_eq_some_iff.1 hbs
    have hcharacters (c : Char) (hc : c ∈ text.toList) : c ∈ hexDigits ∨ c = ':' ∨ c = '-' ∨ c = '.' := by
      by_cases hseparator : isSeparator c = true
      · exact .inr (isSeparator_iff.1 hseparator)
      · exact .inl (hs.mem_hexDigits c (List.mem_filter.2 ⟨hc, by simpa using hseparator⟩))
    rw [filter_eq_digits hcharacters] at hs
    refine ⟨⟨hcharacters, ?_⟩, hs⟩
    rw [List.countP_eq_length_filter]
    exact hs.length_eq.trans (by rw [mac.length_bytes])
  · rintro ⟨hwrites, hs⟩
    refine ⟨mac.bytes, ?_, ofBytes?_eq_some_iff.2 rfl⟩
    rw [filter_eq_digits hwrites.characters]
    exact Bytes.ofHexDigits?_eq_some_iff.2 hs

theorem Writes.exists_spells (h : Writes text) : ∃ mac : MacAddress, Spells (digits text) mac.bytes := by
  have hlength : (digits text).length = 2 * 6 := by
    rw [digits, ← List.countP_eq_length_filter, h.twelve]
  obtain ⟨bs, hs⟩ := Bytes.exists_spells 6 hlength fun c hc => by simpa using (List.mem_filter.1 hc).2
  exact ⟨⟨bs, by have := hs.length_eq; omega⟩, hs⟩

theorem parse?_eq_none (h : ¬Writes text) : parse? text = none :=
  Option.eq_none_iff_forall_not_mem.2 fun _ hmac => h (parse?_eq_some_iff.1 hmac).1

/-- Separators and the case of letters make no difference. -/
theorem parse?_congr (h : plain text = plain text') : parse? text = parse? text' := by
  rw [parse?, parse?, ← Bytes.ofHexDigits?_map_toLower,
    ← Bytes.ofHexDigits?_map_toLower (text'.toList.filter _)]
  exact congrArg (fun cs => (Bytes.ofHexDigits? cs).bind ofBytes?) h

/-! ## The usual ways to write an address -/

theorem mem_hexPair {c : Char} {b : UInt8} (h : c ∈ hexPair b) : c ∈ hexDigits :=
  (Bytes.spells_flatMap_hexPair [b]).mem_hexDigits c (by simpa using h)

/-- Groups of digits with a separator between them are the digits without it. -/
theorem filter_intercalate {c : Char} (hc : isSeparator c = true) {groups : List (List Char)}
    (h : ∀ group ∈ groups, ∀ d ∈ group, isSeparator d = false) :
    ([c].intercalate groups).filter (!isSeparator ·) = groups.flatten := by
  have hgroup : ∀ group ∈ groups, group.filter (!isSeparator ·) = group := fun group hg =>
    List.filter_eq_self.2 fun d hd => by rw [h group hg d hd]; rfl
  induction groups with
  | nil => rfl
  | cons group rest ih =>
    obtain ⟨hfirst, hrest⟩ := List.forall_mem_cons.1 hgroup
    match rest with
    | [] => rw [List.intercalate_singleton, hfirst, List.flatten_singleton]
    | next :: rest =>
      rw [List.intercalate_cons_cons, List.filter_append, List.filter_append, hfirst,
        ih (List.forall_mem_cons.1 h).2 hrest, List.filter_cons_of_neg (by rw [hc]; decide)]
      simp only [List.filter_nil, List.append_nil, List.flatten_cons]

theorem flatten_pairs (bs : Bytes) : (pairs bs).flatten = bs.flatMap hexPair := by
  fun_induction pairs bs with
  | case1 a b rest ih => rw [List.flatten_cons, ih, List.flatMap_cons, List.flatMap_cons, List.append_assoc]
  | case2 a => simp only [List.flatten_cons, List.flatten_nil, List.flatMap_cons, List.flatMap_nil]
  | case3 => rfl

theorem parse?_of_groups {c : Char} (hc : isSeparator c = true) {groups : List (List Char)}
    (hgroups : groups.flatten = mac.bytes.flatMap hexPair) :
    parse? (.ofList ([c].intercalate groups)) = some mac := by
  have hseparator : ∀ group ∈ groups, ∀ d ∈ group, isSeparator d = false := fun group hg d hd => by
    have hmem : d ∈ mac.bytes.flatMap hexPair := hgroups ▸ List.mem_flatten_of_mem hg hd
    obtain ⟨b, -, hb⟩ := List.mem_flatMap.1 hmem
    exact isSeparator_of_mem (mem_hexPair hb)
  rw [parse?, String.toList_ofList, filter_intercalate hc hseparator, hgroups,
    Bytes.ofHexDigits?_eq_some_iff.2 (Bytes.spells_flatMap_hexPair mac.bytes)]
  exact ofBytes?_eq_some_iff.2 rfl

/-- What is written for an address is read back as it. -/
theorem parse?_text (mac : MacAddress) (style : Style) : parse? (mac.text style) = some mac := by
  cases style with
  | colons => exact parse?_of_groups rfl (List.flatMap_def ..).symm
  | hyphens => exact parse?_of_groups rfl (List.flatMap_def ..).symm
  | dots => exact parse?_of_groups rfl (flatten_pairs mac.bytes)

/-! ## Packets -/

/-- The packet that wakes a card: six bytes `FF`, and then its address sixteen times. -/
structure WakesUp (packet : Bytes) (mac : MacAddress) : Prop where
  length : packet.length = 102
  lead : packet.take 6 = List.replicate 6 0xFF
  copies : ∀ k < 16, (packet.drop (6 + 6 * k)).take 6 = mac.bytes

/-- The address that a packet wakes. -/
def ofPacket? (packet : Bytes) : Option MacAddress := ofBytes? ((packet.drop 6).take 6)

theorem take_drop_flatten_replicate {n k : Nat} (hk : k < n) (bs : Bytes) :
    ((List.replicate n bs).flatten.drop (bs.length * k)).take bs.length = bs := by
  induction k generalizing n with
  | zero =>
    obtain ⟨n, rfl⟩ := Nat.exists_eq_add_one.2 hk
    rw [List.replicate_succ, List.flatten_cons, Nat.mul_zero, List.drop_zero, List.take_left]
  | succ k ih =>
    obtain ⟨n, rfl⟩ := Nat.exists_eq_add_one.2 (Nat.zero_lt_of_lt hk)
    rw [List.replicate_succ, List.flatten_cons, Nat.mul_succ, Nat.add_comm, ← List.drop_drop, List.drop_left]
    exact ih (Nat.lt_of_succ_lt_succ hk)

theorem magicPacket_wakesUp (mac : MacAddress) : WakesUp mac.magicPacket mac where
  length := mac.length_magicPacket
  lead := rfl
  copies k hk := by
    rw [magicPacket, ← List.drop_drop, List.drop_left' (List.length_replicate ..)]
    have := take_drop_flatten_replicate hk mac.bytes
    rwa [mac.length_bytes] at this

theorem WakesUp.ofPacket? {packet : Bytes} (h : WakesUp packet mac) : ofPacket? packet = some mac :=
  ofBytes?_eq_some_iff.2 (h.copies 0 (by decide))

end MacAddress

namespace WakeSender

variable {s : WakeSender} {resolve : Resolver} {text host : String} {broadcast : Option String} {ip : Ipv4}

/-- Where a packet goes: to the address that the machine names, or else to the sender's own. -/
inductive Reaches (s : WakeSender) : Option String → String → Prop where
  | named {broadcast : String} (h : broadcast ≠ "") : Reaches s (some broadcast) broadcast
  | missing : Reaches s none s.defaultBroadcast
  | empty : Reaches s (some "") s.defaultBroadcast

theorem Reaches.datagram_host (h : s.Reaches broadcast host) (mac : MacAddress) (port : UInt16) :
    (s.datagram mac port broadcast).host = host := by
  cases h with
  | named h => rw [datagram, Option.filter_some, if_pos (decide_eq_true h), Option.getD_some]
  | missing => rfl
  | empty => rfl

theorem wake_of_parse? {mac : MacAddress} (h : MacAddress.parse? text = some mac)
    (hhost : s.Reaches broadcast host) (hresolve : resolve host = .ok ip) (port : UInt16) :
    s.wake resolve text port broadcast =
      (.ok (), [(.v4 ip (if port = 0 then s.defaultPort else port), mac.magicPacket)]) := by
  simp only [wake, h, hhost.datagram_host, hresolve]
  rfl

theorem wake_of_parse?_eq_none (h : MacAddress.parse? text = none) (port : UInt16) :
    s.wake resolve text port broadcast = (.error (.invalidMac text), []) := by
  simp only [wake, h]

/-! ## Main theorem -/

open MacAddress in
/-- With a network that reaches the host, a text that writes an address sends one packet that wakes
the card with the bytes of its digits, to the port of the machine or the sender's own; any other
text sends nothing and is reported, with any network. Separators and the case of letters
make no difference to the reader, and each usual way to write an address is read back. The address
is found in the packet, so no two addresses have one packet. -/
theorem wake_packet (s : WakeSender) (resolve : Resolver) (port : UInt16) {broadcast : Option String}
    {host : String} {ip : Ipv4} (hhost : s.Reaches broadcast host) (hresolve : resolve host = .ok ip) :
    (∀ text, Writes text → ∃ mac : MacAddress, Spells (digits text) mac.bytes ∧
      s.wake resolve text port broadcast =
        (.ok (), [(.v4 ip (if port = 0 then s.defaultPort else port), mac.magicPacket)])) ∧
    (∀ text, ¬Writes text → ∀ network,
      s.wake network text port broadcast = (.error (.invalidMac text), [])) ∧
    (∀ mac : MacAddress, WakesUp mac.magicPacket mac) ∧
    (∀ text text', plain text = plain text' → parse? text = parse? text') ∧
    (∀ (mac : MacAddress) (style : Style), parse? (mac.text style) = some mac) ∧
    (∀ mac : MacAddress, ofPacket? mac.magicPacket = some mac) ∧
    ∀ mac mac' : MacAddress, mac ≠ mac' → mac.magicPacket ≠ mac'.magicPacket := by
  have hrecover (mac : MacAddress) : ofPacket? mac.magicPacket = some mac :=
    (magicPacket_wakesUp mac).ofPacket?
  refine ⟨fun text h => ?_, fun text h network => wake_of_parse?_eq_none (parse?_eq_none h) port,
    magicPacket_wakesUp, fun text text' => parse?_congr, parse?_text, hrecover, fun mac mac' hne h => hne ?_⟩
  · obtain ⟨mac, hs⟩ := h.exists_spells
    exact ⟨mac, hs, wake_of_parse? (parse?_eq_some_iff.2 ⟨h, hs⟩) hhost hresolve port⟩
  · have := hrecover mac
    rw [h, hrecover mac'] at this
    exact (Option.some.inj this).symm

open MacAddress in
/-- Mixed separators and cases, and no port and an empty broadcast address beside them. -/
theorem wake_packet_mixed :
    ∃ mac : MacAddress, mac.bytes = [0xAA, 0xBB, 0xCC, 0xDD, 0xEE, 0xFF] ∧
      (WakeSender.mk 9 "255.255.255.255").wake .numeric "AA-bb.cC:ddee-ff" 0 (some "") =
        (.ok (), [(.v4 ⟨255, 255, 255, 255⟩ 9, mac.magicPacket)]) := by
  have hwrites : Writes "AA-bb.cC:ddee-ff" := ⟨List.all_iff_forall_prop.1 (by decide), by decide⟩
  have hresolve : Resolver.numeric "255.255.255.255" = .ok ⟨255, 255, 255, 255⟩ := rfl
  obtain ⟨mac, hs, hwake⟩ := (wake_packet ⟨9, "255.255.255.255"⟩ .numeric 0 .empty hresolve).1 _ hwrites
  have hbytes := Bytes.ofHexDigits?_eq_some_iff.2 hs
  exact ⟨mac, (Option.some.inj (hbytes.symm.trans (by decide))), hwake⟩

end WakeSender

end MetalPool
