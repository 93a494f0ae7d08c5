import MetalPool.Json.Printer
import MetalPool.Json.Reader
import MetalPool.Proofs.Text.Decimal
/-!
# Printed values are parsed back

A value that is printed as it is (`Plain`) is parsed back from its text
(`parse?_print`). The reader takes a value off the front of a text, so the lemmas
say what it takes and what it leaves, whatever stands behind the value
(`ReadsBack`), by induction on the value.
-/

namespace MetalPool.Json

variable {room fuel : Nat} {rest : List Char}

/-! ## Strings -/

/-- The pieces spell the text, whatever control characters stand before it by number. -/
def Spell (pieces : List Piece) (cs : List Char) : Prop :=
  ∀ units : List Nat, (∀ u ∈ units, u < 0x20) →
    ofPieces? units pieces = some (units.reverse.map Char.ofNat ++ cs)

theorem ofUnits?_control {units : List Nat} (h : ∀ u ∈ units, u < 0x20) :
    ofUnits? units = some (units.map Char.ofNat) := by
  induction units with
  | nil => rfl
  | cons u units ih =>
    have hu := h u List.mem_cons_self
    have hleading : isLeading u = false := by
      simp [isLeading]
      omega
    have htrailing : isTrailing u = false := by
      simp [isTrailing]
      omega
    have hrest := ih fun v hv => h v (List.mem_cons_of_mem u hv)
    cases units <;> simp_all [ofUnits?]

theorem spell_nil : Spell [] [] := by
  intro units h
  rw [ofPieces?, ofUnits?_control (by simpa using h), List.append_nil]

theorem Spell.char {pieces : List Piece} {cs : List Char} (h : Spell pieces cs) (c : Char) :
    Spell (.char c :: pieces) (c :: cs) := by
  intro units hunits
  rw [ofPieces?, ofUnits?_control (by simpa using hunits), h [] nofun]
  rfl

theorem Spell.unit {pieces : List Piece} {cs : List Char} {c : Char} (h : Spell pieces cs)
    (hc : c.toNat < 0x20) : Spell (.unit c.toNat :: pieces) (c :: cs) := by
  intro units hunits
  rw [ofPieces?, h (c.toNat :: units) (by simpa [hc] using hunits)]
  simp

theorem hex4?_digitChar {n : Nat} (h : n < 0x20) :
    hex4? '0' '0' (Nat.digitChar (n / 16)) (Nat.digitChar (n % 16)) = some n := by
  revert h
  revert n
  decide

/-- A printed character is read as one piece that spells it. -/
theorem readPieces?_escape (c : Char) :
    ∃ p, (∀ pieces cs, Spell pieces cs → Spell (p :: pieces) (c :: cs)) ∧
      ∀ cs, readPieces? (escape c ++ cs) = (readPieces? cs).map fun r => (p :: r.1, r.2) := by
  have hshort {e c : Char} (he : escaped? e = some c) (hu : e ≠ 'u') :
      ∃ p, (∀ pieces cs, Spell pieces cs → Spell (p :: pieces) (c :: cs)) ∧
        ∀ cs, readPieces? (['\\', e] ++ cs) = (readPieces? cs).map fun r => (p :: r.1, r.2) := by
    refine ⟨.char c, fun _ _ h => h.char c, fun cs => ?_⟩
    rw [List.cons_append, List.cons_append, List.nil_append, readPieces?]
    · rw [he]
      cases readPieces? cs <;> rfl
    · simp [hu]
  unfold escape
  split
  case h_8 hquote hback _ _ _ _ _ =>
    by_cases hc : c.toNat < 0x20
    · refine ⟨.unit c.toNat, fun _ _ h => h.unit hc, fun cs => ?_⟩
      simp only [hc, if_true, List.cons_append, List.nil_append, readPieces?, hex4?_digitChar hc]
      cases readPieces? cs <;> rfl
    · refine ⟨.char c, fun _ _ h => h.char c, fun cs => ?_⟩
      rw [if_neg hc, List.cons_append, List.nil_append, readPieces?]
      · have hself : (decide (c.toNat < 0x20) || c == '\\') = false := by
          simp [hc, show c ≠ '\\' from hback]
        rw [hself]
        cases readPieces? cs <;> rfl
      -- The other equations of the reader are for a quote or a backslash.
      · exact hquote
      · exact fun _ _ _ _ _ heq => absurd heq hback
      · exact fun _ _ heq => absurd heq hback
  all_goals exact hshort rfl (by decide)

/-- A printed string is read up to its closing quote. -/
theorem readString?_escape (s : String) (rest : List Char) :
    readString? (s.toList.flatMap escape ++ '"' :: rest) = some (some s, rest) := by
  have hpieces (cs : List Char) : ∃ pieces, Spell pieces cs ∧
      readPieces? (cs.flatMap escape ++ '"' :: rest) = some (pieces, rest) := by
    induction cs with
    | nil => exact ⟨[], spell_nil, by simp [readPieces?]⟩
    | cons c cs ih =>
      obtain ⟨pieces, hspell, hread⟩ := ih
      obtain ⟨p, hp, hescape⟩ := readPieces?_escape c
      refine ⟨p :: pieces, hp pieces cs hspell, ?_⟩
      rw [List.flatMap_cons, List.append_assoc, hescape, hread]
      rfl
  obtain ⟨pieces, hspell, hread⟩ := hpieces s.toList
  unfold readString?
  rw [hread]
  simp [hspell [] nofun]

/-! ## What stands behind a value -/

/-- Nothing stands there, or a comma or closing bracket. -/
def Ends : List Char → Prop
  | [] => True
  | c :: _ => c = ',' ∨ c = ']' ∨ c = '\x7d'

theorem ends_comma (cs : List Char) : Ends (',' :: cs) := .inl rfl

theorem ends_bracket (cs : List Char) : Ends (']' :: cs) := .inr (.inl rfl)

theorem ends_brace (cs : List Char) : Ends ('\x7d' :: cs) := .inr (.inr rfl)

theorem Ends.skipSpaces (h : Ends rest) : skipSpaces rest = rest := by
  cases rest with
  | nil => rfl
  | cons c cs => obtain rfl | rfl | rfl := h <;> rfl

theorem Ends.span_isDigit (h : Ends rest) :
    rest.takeWhile Text.isDigit = [] ∧ rest.dropWhile Text.isDigit = rest := by
  cases rest with
  | nil => exact ⟨rfl, rfl⟩
  | cons c cs => obtain rfl | rfl | rfl := h <;> exact ⟨rfl, rfl⟩

theorem Ends.readFraction? (h : Ends rest) : readFraction? rest = some ([], rest) := by
  cases rest with
  | nil => rfl
  | cons c cs => obtain rfl | rfl | rfl := h <;> rfl

theorem Ends.readExponent? (h : Ends rest) : readExponent? rest = some ([], 0, rest) := by
  cases rest with
  | nil => rfl
  | cons c cs => obtain rfl | rfl | rfl := h <;> rfl

/-! ## Integers -/

theorem readWhole?_toDigits (n : Nat) (h : Ends rest) :
    readWhole? (Nat.toDigits 10 n ++ rest) = some (Nat.toDigits 10 n, rest) := by
  have hall : ∀ c ∈ Nat.toDigits 10 n, Text.isDigit c := fun c hc => Text.isDigit_of_mem_toDigits hc
  unfold readWhole?
  rw [List.takeWhile_append_of_pos hall, List.dropWhile_append_of_pos hall, h.span_isDigit.1,
    h.span_isDigit.2, List.append_nil]
  split
  · exact absurd ‹_› Nat.toDigits_ne_nil
  · rename_i hzero
    rw [hzero]
  · rename_i hne hzero
    rw [Text.eq_zero_of_toDigits hzero, Nat.toDigits_zero] at hzero
    cases hzero
    exact absurd rfl hne
  · rfl

theorem head_toDigits (n : Nat) : ∃ d ds, Nat.toDigits 10 n = d :: ds ∧ Text.isDigit d := by
  cases hd : Nat.toDigits 10 n with
  | nil => exact absurd hd Nat.toDigits_ne_nil
  | cons d ds => exact ⟨d, ds, rfl, Text.isDigit_of_mem_toDigits (hd ▸ List.mem_cons_self)⟩

theorem head_print_int (n : Int) :
    ∃ c cs, (Json.int n).print.toList = c :: cs ∧ (c = '-' ∨ Text.isDigit c) := by
  rw [print, Int.toString_eq_repr, Int.repr_eq_if]
  by_cases hn : 0 ≤ n
  · obtain ⟨d, ds, hdigits, hd⟩ := head_toDigits n.toNat
    exact ⟨d, ds, by simp [hn, hdigits], .inr hd⟩
  · exact ⟨'-', Nat.toDigits 10 (-n).toNat, by simp [hn], .inl rfl⟩

/-- An integer of 64 bits is read, be it with a sign or not. -/
theorem readNumber?_print {n : Int} (hlow : -9223372036854775808 ≤ n)
    (hhigh : n ≤ 18446744073709551615) (h : Ends rest) :
    readNumber? ((Json.int n).print.toList ++ rest) = some (.int n, rest) := by
  rw [print, Int.toString_eq_repr, Int.repr_eq_if]
  by_cases hn : 0 ≤ n
  · obtain ⟨d, ds, hdigits, hd⟩ := head_toDigits n.toNat
    have hsign : d ≠ '-' := by
      rintro rfl
      exact absurd hd (by decide)
    have hwhole := readWhole?_toDigits n.toNat h
    have hinteger : integer? false (Nat.toDigits 10 n.toNat) = some n := by
      simp [integer?, Text.valueOf_toDigits]
      omega
    rw [if_pos hn, Nat.toList_repr]
    rw [hdigits] at hwhole hinteger ⊢
    rw [List.cons_append] at hwhole
    simp [readNumber?, hsign, hwhole, h.readFraction?, h.readExponent?, hinteger]
  · have hinteger : integer? true (Nat.toDigits 10 (-n).toNat) = some n := by
      simp [integer?, Text.valueOf_toDigits]
      omega
    simp [hn, readNumber?, readWhole?_toDigits _ h, h.readFraction?, h.readExponent?, hinteger]

/-! ## Plain values -/

/-- The value is printed as it is: its numbers are integers of 64 bits, and no more than `room` arrays
and objects stand inside each other. -/
inductive Plain : Nat → Json → Prop
  | null {room : Nat} : Plain room .null
  | bool {room : Nat} (b : Bool) : Plain room (.bool b)
  | int {room : Nat} {n : Int} (low : -9223372036854775808 ≤ n) (high : n ≤ 18446744073709551615) :
    Plain room (.int n)
  | str {room : Nat} (s : String) : Plain room (.str s)
  | arr {room : Nat} {items : List Json} (h : ∀ j ∈ items, Plain room j) :
    Plain (room + 1) (.arr items)
  | obj {room : Nat} {ms : List (String × Json)} (h : ∀ m ∈ ms, Plain room m.2) :
    Plain (room + 1) (.obj ms)

theorem plain_uint16 (n : UInt16) : Plain room (.int n.toNat) := by
  have := n.toNat_lt
  exact .int (by omega) (by omega)

theorem plain_uint32 (n : UInt32) : Plain room (.int n.toNat) := by
  have := n.toNat_lt
  exact .int (by omega) (by omega)

theorem plain_int64 (n : Int64) : Plain room (.int n.toInt) := by
  have hlow := n.le_toInt
  have hhigh := n.toInt_lt
  exact .int (by omega) (by omega)

/-- All members of an object are plain. -/
def PlainMembers (room : Nat) (ms : List (String × Json)) : Prop := ∀ m ∈ ms, Plain room m.2

@[simp] theorem plainMembers_nil : PlainMembers room [] := nofun

@[simp] theorem plainMembers_cons {m : String × Json} {ms : List (String × Json)} :
    PlainMembers room (m :: ms) ↔ Plain room m.2 ∧ PlainMembers room ms :=
  List.forall_mem_cons

@[simp] theorem plainMembers_append {ms others : List (String × Json)} :
    PlainMembers room (ms ++ others) ↔ PlainMembers room ms ∧ PlainMembers room others :=
  List.forall_mem_append

theorem plainMembers_member? {α : Type} {name : String} {write : α → Json} {o : Option α}
    (h : ∀ a, Plain room (write a)) : PlainMembers room (member? name write o) := by
  cases o with
  | none => exact plainMembers_nil
  | some a => exact plainMembers_cons.2 ⟨h a, plainMembers_nil⟩

/-- The text starts with neither a space nor a closing bracket. -/
def Opens (text : String) : Prop :=
  ∃ c cs, text.toList = c :: cs ∧ isSpace c = false ∧ c ≠ ']' ∧ c ≠ '\x7d'

theorem Opens.append {text : String} (h : Opens text) (more : String) : Opens (text ++ more) := by
  obtain ⟨c, cs, htext, hc⟩ := h
  exact ⟨c, cs ++ more.toList, by rw [String.toList_append, htext, List.cons_append], hc⟩

theorem Opens.skipSpaces_append {text : String} (h : Opens text) (rest : List Char) :
    skipSpaces (text.toList ++ rest) = text.toList ++ rest := by
  obtain ⟨c, cs, htext, hc, -⟩ := h
  simp [htext, skipSpaces, hc]

theorem opens_quoted (s : String) : Opens (quoted s) :=
  ⟨'"', s.toList.flatMap escape ++ ['"'], String.toList_ofList, by decide, by decide, by decide⟩

theorem Plain.opens {j : Json} (h : Plain room j) : Opens j.print := by
  cases h with
  | null => exact ⟨'n', _, rfl, by decide, by decide, by decide⟩
  | bool b => cases b <;> exact ⟨_, _, rfl, by decide, by decide, by decide⟩
  | str s => exact opens_quoted s
  | arr h => exact ⟨'[', _, by simp [print]; rfl, by decide, by decide, by decide⟩
  | obj h => exact ⟨'\x7b', _, by simp [print]; rfl, by decide, by decide, by decide⟩
  | @int _ n hlow hhigh =>
    obtain ⟨c, cs, htext, hc⟩ := head_print_int n
    have hrange : 45 ≤ c.toNat ∧ c.toNat ≤ 57 := by
      rcases hc with rfl | hc
      · decide
      · have := Text.toNat_of_isDigit hc
        omega
    have hne (d : Char) (hd : d.toNat < 45 ∨ 57 < d.toNat) : c ≠ d := by
      rintro rfl
      omega
    have hspace : isSpace c = false := by
      simp [isSpace, hne ' ' (by decide), hne '\n' (by decide), hne '\t' (by decide),
        hne '\r' (by decide)]
    exact ⟨c, cs, htext, hspace, hne ']' (by decide), hne '\x7d' (by decide)⟩

/-! ## Values without parts -/

/-- The value is read from its text, whatever stands behind it. Two units of fuel for each character
are enough. -/
def ReadsBack (room : Nat) (j : Json) : Prop :=
  ∀ (fuel : Nat) (rest : List Char), 2 * j.print.toList.length ≤ fuel → Ends rest →
    readValue? fuel room (j.print.toList ++ rest) = some (j, rest)

theorem readsBack_null : ReadsBack room .null := by
  intro fuel rest hfuel _
  cases fuel with
  | zero => simp [print] at hfuel
  | succ fuel => simp [print, readValue?]

theorem readsBack_bool (b : Bool) : ReadsBack room (.bool b) := by
  intro fuel rest hfuel _
  cases fuel with
  | zero => cases b <;> simp [print] at hfuel
  | succ fuel => cases b <;> simp [print, readValue?]

theorem readsBack_str (s : String) : ReadsBack room (.str s) := by
  intro fuel rest hfuel _
  cases fuel with
  | zero => simp [print, quoted] at hfuel
  | succ fuel => simp [print, quoted, readValue?, readString?_escape]

theorem readValue?_number {c : Char} (hc : c = '-' ∨ Text.isDigit c) (cs : List Char) :
    readValue? (fuel + 1) room (c :: cs) = readNumber? (c :: cs) := by
  have hne (d : Char) (hd : d ≠ '-') (hdigit : Text.isDigit d = false) : c ≠ d := by
    rintro rfl
    rcases hc with rfl | hc
    · exact hd rfl
    · rw [hdigit] at hc
      cases hc
  -- Every other equation of the reader is for a text that starts otherwise.
  rw [readValue?]
  all_goals
    intro tail htail
    exact hne _ (by decide) (by decide) (List.cons.inj htail).1

theorem readsBack_int {n : Int} (hlow : -9223372036854775808 ≤ n)
    (hhigh : n ≤ 18446744073709551615) : ReadsBack room (.int n) := by
  intro fuel rest hfuel hends
  have hread := readNumber?_print hlow hhigh hends
  obtain ⟨c, cs, htext, hc⟩ := head_print_int n
  rw [htext] at hread hfuel ⊢
  cases fuel with
  | zero => simp at hfuel
  | succ fuel => exact (readValue?_number hc (cs ++ rest)).trans hread

/-! ## Lists with commas -/

theorem toList_intercalate_cons (first second : String) (others : List String) :
    (",".intercalate (first :: second :: others)).toList =
      first.toList ++ ',' :: (",".intercalate (second :: others)).toList := by
  simp [String.toList_intercalate]

theorem Opens.intercalate {first : String} (h : Opens first) (others : List String) :
    Opens (",".intercalate (first :: others)) := by
  cases others with
  | nil => simpa [String.intercalate_singleton] using h
  | cons second others =>
    obtain ⟨c, cs, htext, hc⟩ := h
    refine ⟨c, cs ++ ',' :: (",".intercalate (second :: others)).toList, ?_, hc⟩
    rw [toList_intercalate_cons, htext, List.cons_append]

/-- A reader reads a list with commas up to the closing bracket, if it reads the last element before
the bracket and goes on after the comma behind any other. -/
theorem read_intercalate {α β : Type} (text : α → String) (close : Char) (result : List α → β)
    (read : Nat → List Char → Option (β × List Char)) {a : α} {others : List α}
    (hopens : ∀ b ∈ a :: others, Opens (text b))
    (hlast : ∀ b ∈ a :: others, ∀ fuel rest, 2 * (text b).toList.length ≤ fuel →
      read (fuel + 1) ((text b).toList ++ close :: rest) = some (result [b], rest))
    (hmore : ∀ b ∈ a :: others, ∀ fuel cs bs rest, 2 * (text b).toList.length ≤ fuel →
      read fuel (skipSpaces cs) = some (result bs, rest) →
        read (fuel + 1) ((text b).toList ++ ',' :: cs) = some (result (b :: bs), rest))
    (hfuel : 2 * (",".intercalate ((a :: others).map text)).toList.length < fuel)
    (rest : List Char) :
    read fuel ((",".intercalate ((a :: others).map text)).toList ++ close :: rest) =
      some (result (a :: others), rest) := by
  obtain ⟨fuel, rfl⟩ : ∃ more, fuel = more + 1 := ⟨fuel - 1, by omega⟩
  induction others generalizing a fuel with
  | nil =>
    rw [List.map_singleton, String.intercalate_singleton] at hfuel ⊢
    exact hlast a List.mem_cons_self fuel rest (by omega)
  | cons b others ih =>
    rw [List.map_cons, List.map_cons, toList_intercalate_cons, ← List.map_cons] at hfuel ⊢
    rw [List.length_append, List.length_cons] at hfuel
    rw [List.append_assoc, List.cons_append]
    refine hmore a List.mem_cons_self fuel _ _ rest (by omega) ?_
    have hopen : Opens (",".intercalate ((b :: others).map text)) :=
      (hopens b (by simp)).intercalate (others.map text)
    rw [hopen.skipSpaces_append]
    obtain ⟨fuel, rfl⟩ : ∃ more, fuel = more + 1 := ⟨fuel - 1, by omega⟩
    exact ih (fun c hc => hopens c (List.mem_cons_of_mem a hc))
      (fun c hc => hlast c (List.mem_cons_of_mem a hc))
      (fun c hc => hmore c (List.mem_cons_of_mem a hc)) fuel (by omega)

/-! ## Arrays -/

theorem printItems_eq_map (items : List Json) : printItems items = items.map print := by
  induction items with
  | nil => rfl
  | cons j rest ih => rw [printItems, ih, List.map_cons]

theorem readItems?_last {j : Json} (h : ReadsBack room j) (hfuel : 2 * j.print.toList.length ≤ fuel)
    (rest : List Char) :
    readItems? (fuel + 1) room (j.print.toList ++ ']' :: rest) = some ([j], rest) := by
  rw [readItems?, h fuel _ hfuel (ends_bracket rest)]
  simp [(ends_bracket rest).skipSpaces]

theorem readItems?_more {j : Json} (h : ReadsBack room j) (hfuel : 2 * j.print.toList.length ≤ fuel)
    {cs : List Char} {items : List Json}
    (hread : readItems? fuel room (skipSpaces cs) = some (items, rest)) :
    readItems? (fuel + 1) room (j.print.toList ++ ',' :: cs) = some (j :: items, rest) := by
  rw [readItems?, h fuel _ hfuel (ends_comma cs)]
  simp [(ends_comma cs).skipSpaces, hread]

theorem readValue?_arr {text : String} (h : Opens text) {items : List Json}
    (hread : readItems? fuel room (text.toList ++ ']' :: rest) = some (items, rest)) :
    readValue? (fuel + 1) (room + 1) ('[' :: (text.toList ++ ']' :: rest)) =
      some (.arr items, rest) := by
  have hskip := h.skipSpaces_append (']' :: rest)
  obtain ⟨c, cs, htext, -, hc, -⟩ := h
  rw [htext, List.cons_append] at hread hskip ⊢
  simp [readValue?, hskip, hc, hread]

theorem readsBack_arr {items : List Json} (hp : ∀ j ∈ items, Plain room j)
    (hr : ∀ j ∈ items, ReadsBack room j) : ReadsBack (room + 1) (.arr items) := by
  intro fuel rest hfuel _
  have htext (cs : List Char) : (Json.arr items).print.toList ++ cs =
      '[' :: ((",".intercalate (items.map print)).toList ++ ']' :: cs) := by
    simp [print, printItems_eq_map]
  have hlength := congrArg List.length (htext [])
  rw [List.append_nil, List.length_cons, List.length_append, List.length_singleton] at hlength
  obtain ⟨fuel, rfl⟩ : ∃ more, fuel = more + 1 := ⟨fuel - 1, by omega⟩
  rw [htext]
  cases items with
  | nil => simp [readValue?, skipSpaces, isSpace]
  | cons first others =>
    refine readValue?_arr ((hp first List.mem_cons_self).opens.intercalate (others.map print)) ?_
    exact read_intercalate print ']' id (readItems? · room) (fun j hj => (hp j hj).opens)
      (fun j hj _ rest hfuel => readItems?_last (hr j hj) hfuel rest)
      (fun j hj _ _ _ _ hfuel hread => readItems?_more (hr j hj) hfuel hread) (by omega) rest

/-! ## Objects -/

/-- The text of a member. -/
def memberText (m : String × Json) : String := quoted m.1 ++ ":" ++ m.2.print

theorem printMembers_eq_map (ms : List (String × Json)) : printMembers ms = ms.map memberText := by
  induction ms with
  | nil => rfl
  | cons m rest ih => rw [printMembers, ih, List.map_cons, memberText]

theorem opens_memberText (m : String × Json) : Opens (memberText m) :=
  ((opens_quoted m.1).append ":").append m.2.print

theorem length_print_le_memberText (m : String × Json) :
    m.2.print.toList.length ≤ (memberText m).toList.length := by
  simp [memberText]
  omega

theorem toList_memberText_append (m : String × Json) (cs : List Char) :
    (memberText m).toList ++ cs =
      '"' :: (m.1.toList.flatMap escape ++ '"' :: ':' :: (m.2.print.toList ++ cs)) := by
  simp [memberText, quoted]

theorem readMembers?_last {m : String × Json} (hp : Plain room m.2) (h : ReadsBack room m.2)
    (hfuel : 2 * (memberText m).toList.length ≤ fuel) (rest : List Char) :
    readMembers? (fuel + 1) room ((memberText m).toList ++ '\x7d' :: rest) = some (some [m], rest) := by
  have hlength := length_print_le_memberText m
  have hvalue := h fuel _ (by omega) (ends_brace rest)
  have hcolon (cs : List Char) : skipSpaces (':' :: cs) = ':' :: cs := rfl
  rw [toList_memberText_append, readMembers?]
  simp [readString?_escape, hcolon, hp.opens.skipSpaces_append, hvalue, (ends_brace rest).skipSpaces]

theorem readMembers?_more {m : String × Json} (hp : Plain room m.2) (h : ReadsBack room m.2)
    (hfuel : 2 * (memberText m).toList.length ≤ fuel) {cs : List Char} {ms : List (String × Json)}
    (hread : readMembers? fuel room (skipSpaces cs) = some (some ms, rest)) :
    readMembers? (fuel + 1) room ((memberText m).toList ++ ',' :: cs) = some (some (m :: ms), rest) := by
  have hlength := length_print_le_memberText m
  have hvalue := h fuel _ (by omega) (ends_comma cs)
  have hcolon (cs : List Char) : skipSpaces (':' :: cs) = ':' :: cs := rfl
  rw [toList_memberText_append, readMembers?]
  simp [readString?_escape, hcolon, hp.opens.skipSpaces_append, hvalue, (ends_comma cs).skipSpaces,
    hread]

theorem readValue?_obj {text : String} (h : Opens text) {ms : List (String × Json)}
    (hread : readMembers? fuel room (text.toList ++ '\x7d' :: rest) = some (some ms, rest)) :
    readValue? (fuel + 1) (room + 1) ('\x7b' :: (text.toList ++ '\x7d' :: rest)) =
      some (.obj ms, rest) := by
  have hskip := h.skipSpaces_append ('\x7d' :: rest)
  obtain ⟨c, cs, htext, -, -, hc⟩ := h
  rw [htext, List.cons_append] at hread hskip ⊢
  simp [readValue?, hskip, hc, hread]

theorem readsBack_obj {ms : List (String × Json)} (hp : ∀ m ∈ ms, Plain room m.2)
    (hr : ∀ m ∈ ms, ReadsBack room m.2) : ReadsBack (room + 1) (.obj ms) := by
  intro fuel rest hfuel _
  have htext (cs : List Char) : (Json.obj ms).print.toList ++ cs =
      '\x7b' :: ((",".intercalate (ms.map memberText)).toList ++ '\x7d' :: cs) := by
    simp [print, printMembers_eq_map]
  have hlength := congrArg List.length (htext [])
  rw [List.append_nil, List.length_cons, List.length_append, List.length_singleton] at hlength
  obtain ⟨fuel, rfl⟩ : ∃ more, fuel = more + 1 := ⟨fuel - 1, by omega⟩
  rw [htext]
  cases ms with
  | nil => simp [readValue?, skipSpaces, isSpace]
  | cons first others =>
    refine readValue?_obj ((opens_memberText first).intercalate (others.map memberText)) ?_
    exact read_intercalate memberText '\x7d' some (readMembers? · room)
      (fun m _ => opens_memberText m)
      (fun m hm _ rest hfuel => readMembers?_last (hp m hm) (hr m hm) hfuel rest)
      (fun m hm _ _ _ _ hfuel hread => readMembers?_more (hp m hm) (hr m hm) hfuel hread) (by omega) rest

/-! ## Main theorem -/

theorem Plain.readsBack {j : Json} (h : Plain room j) : ReadsBack room j := by
  induction h with
  | null => exact readsBack_null
  | bool b => exact readsBack_bool b
  | int hlow hhigh => exact readsBack_int hlow hhigh
  | str s => exact readsBack_str s
  | arr h ih => exact readsBack_arr h ih
  | obj h ih => exact readsBack_obj h ih

/-- A plain value is parsed back from its text. -/
theorem parse?_print {j : Json} (h : Plain maxDepth j) : parse? j.print = some j := by
  have hspaces := h.opens.skipSpaces_append []
  have hread := h.readsBack (2 * j.print.toList.length + 1) [] (Nat.le_succ _) trivial
  rw [List.append_nil] at hspaces hread
  unfold parse?
  simp only [hspaces, hread]
  rfl

end MetalPool.Json
