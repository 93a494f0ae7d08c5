import MetalPool.Proofs.Text.Decimal
import MetalPool.Timestamp.Printer
import MetalPool.Timestamp.Reader
/-!
# Written instants are read back

Every field of a written instant has a fixed number of digits, so it is read
back whatever follows (`readField?_lastDigits`). Only years from 0 to 9999 are
written without a sign; an instant in one of them is read back as it was
(`parse?_toText`), and without its fraction where that was cut off
(`parse?_toWholeSecondsText`).
-/

namespace MetalPool

namespace Text

/-! ## Parts of a text -/

theorem isBlank_of_isDigit {c : Char} (h : isDigit c) : isBlank c = false := by
  have := toNat_of_isDigit h
  simp [isBlank]
  omega

theorem dropBlanks_cons {c : Char} (h : isBlank c = false) (cs : List Char) :
    dropBlanks (c :: cs) = c :: cs := by
  simp [dropBlanks, h]

theorem dropBlanks_lastDigits {width : Nat} (hw : width ≠ 0) (n : Nat) (rest : List Char) :
    dropBlanks (lastDigits width n ++ rest) = lastDigits width n ++ rest := by
  cases hd : lastDigits width n with
  | nil =>
    have hlength := congrArg List.length hd
    simp [hw] at hlength
  | cons c cs =>
    have hc : c ∈ lastDigits width n := hd ▸ List.mem_cons_self
    exact dropBlanks_cons (isBlank_of_isDigit (isDigit_of_mem_lastDigits hc)) _

theorem takeWhile_isDigit_lastDigits (width n : Nat) :
    (lastDigits width n).takeWhile isDigit = lastDigits width n := by
  have hall : ∀ c ∈ lastDigits width n, isDigit c := fun c hc => isDigit_of_mem_lastDigits hc
  have happend : (lastDigits width n ++ []).takeWhile isDigit = lastDigits width n ++ [] :=
    List.takeWhile_append_of_pos hall
  simpa using happend

end Text

namespace Timestamp

open Text

theorem readField?_lastDigits {width : Nat} (hw : width ≠ 0) (n : Nat) (rest : List Char) :
    readField? width (lastDigits width n ++ rest) = some (n % 10 ^ width, rest) := by
  unfold readField?
  rw [List.take_append_of_le_length (by simp), List.take_of_length_le (by simp),
    takeWhile_isDigit_lastDigits]
  split
  · rename_i hnil
    have hlength := congrArg List.length hnil
    simp [hw] at hlength
  · simp [valueOf_lastDigits]

theorem readYear?_lastDigits (n : Nat) (rest : List Char) :
    readYear? (lastDigits 4 n ++ rest) = some (((n % 10 ^ 4 : Nat) : Int), rest) := by
  have hread := readField?_lastDigits (by decide : 4 ≠ 0) n rest
  have hsign : ∀ c cs, lastDigits 4 n ++ rest = c :: cs → isDigit c := by
    intro c cs h
    cases hd : lastDigits 4 n with
    | nil => simpa using congrArg List.length hd
    | cons d ds =>
      rw [hd] at h
      cases h
      exact isDigit_of_mem_lastDigits (hd ▸ List.mem_cons_self)
  unfold readYear?
  split
  · exact absurd (hsign _ _ ‹_›) (by decide)
  · exact absurd (hsign _ _ ‹_›) (by decide)
  · simp [hread]

theorem readFraction?_digits {digits : List Char} (hne : digits ≠ []) (hlength : digits.length ≤ 9)
    (hall : ∀ c ∈ digits, isDigit c) (rest : List Char) :
    readFraction? ('.' :: (digits ++ 'Z' :: rest)) =
      some (valueOf digits * 10 ^ (9 - digits.length), 'Z' :: rest) := by
  have hZ : isDigit 'Z' = false := by decide
  have htake : ((digits ++ 'Z' :: rest).take 9).takeWhile isDigit = digits := by
    rw [List.take_append, List.take_of_length_le hlength, List.takeWhile_append_of_pos hall]
    cases 9 - digits.length <;> simp [hZ]
  have hdrop : (digits ++ 'Z' :: rest).dropWhile isDigit = 'Z' :: rest := by
    rw [List.dropWhile_append_of_pos hall]
    simp [hZ]
  unfold readFraction?
  simp only [htake, hdrop]
  rw [valueOf_append_zeros]

theorem readFraction?_fractionText {nano : Nat} (h : nano < 1000000000) (rest : List Char) :
    readFraction? ((fractionText nano).toList ++ 'Z' :: rest) = some (nano, 'Z' :: rest) := by
  have hdigits {width : Nat} (hw : width ≠ 0) (hle : width ≤ 9) (n : Nat) :
      readFraction? ('.' :: (lastDigits width n ++ 'Z' :: rest)) =
        some (n % 10 ^ width * 10 ^ (9 - width), 'Z' :: rest) := by
    have hne : lastDigits width n ≠ [] := by
      intro hnil
      have hlength := congrArg List.length hnil
      simp [hw] at hlength
    have hread := readFraction?_digits hne (by simpa) (fun c hc => isDigit_of_mem_lastDigits hc) rest
    simpa [valueOf_lastDigits] using hread
  have htext (digits : List Char) : ("." ++ String.ofList digits).toList = '.' :: digits := by
    simp [String.toList_append]
  unfold fractionText
  split
  · simp [readFraction?, *]
  · split
    · have hvalue : nano / 1000000 % 10 ^ 3 * 10 ^ (9 - 3) = nano := by omega
      rw [htext, List.cons_append, hdigits (by decide) (by decide), hvalue]
    · split
      · have hvalue : nano / 1000 % 10 ^ 6 * 10 ^ (9 - 6) = nano := by omega
        rw [htext, List.cons_append, hdigits (by decide) (by decide), hvalue]
      · have hvalue : nano % 10 ^ 9 * 10 ^ (9 - 9) = nano := by omega
        rw [htext, List.cons_append, hdigits (by decide) (by decide), hvalue]

/-! ## Dates and instants -/

theorem of?_self (d : Date) : Date.of? d.year d.month d.day = some d := by
  simp [Date.of?, d.month_valid, d.day_valid]

theorem lt_of_day (d : Date) : d.day < 100 := by
  have := d.day_valid.2
  have hmonth : daysInMonth d.year d.month ≤ 31 := by
    unfold daysInMonth
    repeat' split
    all_goals decide
  omega

/-- The year is written without a sign. -/
def Dated (t : Timestamp) : Prop := 0 ≤ t.date.year ∧ t.date.year ≤ 9999

theorem readDate?_dateText {d : Date} (hlow : 0 ≤ d.year) (hhigh : d.year ≤ 9999) (rest : List Char) :
    readDate? ((dateText d).toList ++ rest) = some (d, rest) := by
  have hyear : ((d.year.toNat % 10 ^ 4 : Nat) : Int) = d.year := by omega
  have hmonth : d.month % 10 ^ 2 = d.month := by have := d.month_valid; omega
  have hday : d.day % 10 ^ 2 = d.day := by have := lt_of_day d; omega
  have htext : (dateText d).toList ++ rest = lastDigits 4 d.year.toNat ++
      '-' :: (lastDigits 2 d.month ++ '-' :: (lastDigits 2 d.day ++ rest)) := by
    simp [dateText, yearText, twoDigits, hlow, hhigh, String.toList_append]
  have hmark (cs : List Char) : skipMark? '-' ('-' :: cs) = some cs := by
    simp [skipMark?, dropBlanks_cons (show isBlank '-' = false by decide)]
  rw [htext]
  simp only [readDate?, dropBlanks_lastDigits (by decide : 4 ≠ 0), readYear?_lastDigits,
    dropBlanks_lastDigits (by decide : 2 ≠ 0), readField?_lastDigits (by decide : 2 ≠ 0), hmark,
    hyear, hmonth, hday, of?_self, Option.bind_eq_bind, Option.bind_some]
  rfl

/-- The number of the second in its minute, 60 for a leap second. -/
def secondNumber (t : Timestamp) : Nat := t.second % 60 + (if t.nano < 1000000000 then 0 else 1)

/-- The fields of a written time are read back one by one. -/
theorem parse?_of_fraction {t : Timestamp} (h : t.Dated) {fraction : String} {nano : Nat}
    (hf : readFraction? (fraction.toList ++ ['Z']) = some (nano, ['Z'])) :
    parse? (t.toSecondsText ++ fraction ++ "Z") =
      ofLocal? t.date (t.second / 3600) (t.second / 60 % 60) t.secondNumber nano 0 := by
  have hsecond := t.second_valid
  have hhour : t.second / 3600 % 10 ^ 2 = t.second / 3600 := by omega
  have hminute : t.second / 60 % 60 % 10 ^ 2 = t.second / 60 % 60 := by omega
  have hnumber : t.secondNumber % 10 ^ 2 = t.secondNumber := by
    unfold secondNumber
    split <;> omega
  have htext : (t.toSecondsText ++ fraction ++ "Z").toList = (dateText t.date).toList ++
      'T' :: (lastDigits 2 (t.second / 3600) ++ ':' :: (lastDigits 2 (t.second / 60 % 60) ++
        ':' :: (lastDigits 2 t.secondNumber ++ (fraction.toList ++ ['Z'])))) := by
    simp [toSecondsText, twoDigits, secondNumber, String.toList_append]
  have hmark (cs : List Char) : skipMark? ':' (':' :: cs) = some cs := by
    simp [skipMark?, dropBlanks_cons (show isBlank ':' = false by decide)]
  have hseparator (cs : List Char) : skipSeparator? ('T' :: cs) = some cs := by
    simp [skipSeparator?]
  have hoffset : readOffset? (dropBlanks ['Z']) = some (0, []) := by decide
  have hend : (dropBlanks []).isEmpty := by decide
  unfold parse?
  rw [htext]
  simp only [readDate?_dateText h.1 h.2, hseparator, dropBlanks_lastDigits (by decide : 2 ≠ 0),
    readField?_lastDigits (by decide : 2 ≠ 0), hmark, hhour, hminute, hnumber, hf, hoffset,
    Option.bind_eq_bind, Option.bind_some]
  rw [if_pos hend]

/-- The instant at these fields in UTC, a leap second by its own number. -/
theorem ofLocal?_of_fields {t t' : Timestamp} (h : t.Dated) {nano : Nat} (hn : nano < 1000000000)
    (hdate : t'.date = t.date) (hsecond : t'.second = t.second)
    (hnano : t'.nano = nano + (if t.nano < 1000000000 then 0 else 1000000000)) :
    ofLocal? t.date (t.second / 3600) (t.second / 60 % 60) t.secondNumber nano 0 = some t' := by
  have hvalid := t.second_valid
  have hleap : t.secondNumber = 60 ↔ ¬ t.nano < 1000000000 := by
    have := t.nano_valid
    unfold secondNumber
    split <;> omega
  have hwall : t.second / 3600 * 3600 + t.second / 60 % 60 * 60 + min t.secondNumber 59 = t.second := by
    have := t.nano_valid
    unfold secondNumber
    split <;> omega
  have hfields : t.second / 3600 < 24 ∧ t.second / 60 % 60 < 60 ∧ t.secondNumber ≤ 60 := by
    unfold secondNumber
    refine ⟨by omega, by omega, ?_⟩
    split <;> omega
  have hrange : yearInRange t.date.year := by
    obtain ⟨hlow, hhigh⟩ := h
    simp [yearInRange]
    omega
  obtain ⟨date, second, nano', hs, hv⟩ := t'
  simp only at hdate hsecond hnano
  subst hdate hsecond
  unfold ofLocal?
  rw [dif_pos ⟨hfields.1, hfields.2.1, hfields.2.2, hn, by decide, by decide, by decide⟩]
  have hshifted : ((t.second / 3600 * 3600 + t.second / 60 % 60 * 60 + min t.secondNumber 59 : Nat) : Int)
      - 0 = t.second := by
    rw [hwall]
    omega
  simp only [hshifted]
  have hlow : ¬ (t.second : Int) < 0 := by omega
  have hhigh : (t.second : Int) < 86400 := by omega
  simp only [hlow, hhigh, if_true, if_false, hrange, Bool.and_self, Option.some.injEq,
    Timestamp.mk.injEq, true_and]
  refine ⟨by omega, ?_⟩
  rw [hnano]
  by_cases hl : t.nano < 1000000000
  · rw [if_neg fun hs => hleap.1 hs hl, if_pos hl, Nat.add_zero]
  · rw [if_pos (hleap.2 hl), if_neg hl]

theorem parse?_toText {t : Timestamp} (h : t.Dated) : parse? t.toText = some t := by
  have hn : t.nano % 1000000000 < 1000000000 := Nat.mod_lt _ (by decide)
  have hnano : t.nano =
      t.nano % 1000000000 + (if t.nano < 1000000000 then 0 else 1000000000) := by
    have := t.nano_valid
    split <;> omega
  unfold toText
  rw [parse?_of_fraction h (readFraction?_fractionText hn [])]
  exact ofLocal?_of_fields h hn rfl rfl hnano

theorem parse?_toWholeSecondsText {t : Timestamp} (h : t.Dated) :
    parse? t.toWholeSecondsText = some t.truncate := by
  have hfraction : readFraction? ("".toList ++ ['Z']) = some (0, ['Z']) :=
    readFraction?_fractionText (by decide : 0 < 1000000000) []
  have hparse := parse?_of_fraction h hfraction
  rw [String.append_empty] at hparse
  unfold toWholeSecondsText
  rw [hparse]
  exact ofLocal?_of_fields h (by decide) rfl rfl (by simp [truncate])

end Timestamp

end MetalPool
