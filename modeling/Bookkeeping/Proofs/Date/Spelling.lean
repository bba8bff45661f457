import Bookkeeping.Proofs.Date.Text
import Bookkeeping.Proofs.RuleText.Literal
import Bookkeeping.Proofs.Text.Numeral
import Bookkeeping.Value.Coercion

/-!
# Spellings of a date

A text is read as a date in more spellings than the one that dates are given: month and day need
only one digit and may follow blanks, and a year needs neither four digits nor the right sign. The
text of a date is the spelling of it that has the form of a calendar date in full width.
-/

namespace Bookkeeping.Date

open Bookkeeping.Text
open RuleText (Digits Numeral)

section Forms

/-- A year as it is read: one to four digits, or a sign and any number of digits. -/
inductive YearForm : List Char → Int → Prop
  | plain {digits : List Char} (hdigits : Numeral digits) (hshort : digits.length ≤ 4) :
      YearForm digits (digitsValue digits)
  | plus {digits : List Char} (hdigits : Numeral digits) :
      YearForm ('+' :: digits) (digitsValue digits)
  | minus {digits : List Char} (hdigits : Numeral digits) :
      YearForm ('-' :: digits) (-digitsValue digits)

/-- A month or day as it is read: one or two digits behind any blanks. -/
inductive FieldForm : List Char → Nat → Prop
  | mk {blanks digits : List Char} (hblanks : ∀ c ∈ blanks, isBlank c = true)
      (hdigits : Numeral digits) (hshort : digits.length ≤ 2) :
      FieldForm (blanks ++ digits) (digitsValue digits)

/-- A text that is read as the date. -/
inductive Spelling : List Char → Date → Prop
  | mk {year month day : List Char} {d : Date} (hyear : YearForm year d.year)
      (hmonth : FieldForm month d.month) (hday : FieldForm day d.day) :
      Spelling (year ++ '-' :: (month ++ '-' :: day)) d

/-- A year in full width: four digits without a sign, or a sign and more digits where these are
needed. A year before the year zero has the sign with four digits already. -/
inductive FullYear : List Char → Prop
  | plain {digits : List Char} (hdigits : Digits 4 digits) : FullYear digits
  | plus {digits : List Char} (hdigits : Numeral digits) (hlong : 4 < digits.length)
      (hhead : digits.head? ≠ some '0') : FullYear ('+' :: digits)
  | minus {digits : List Char} (hdigits : Numeral digits)
      (hlong : digits.length = 4 ∨ 4 < digits.length ∧ digits.head? ≠ some '0')
      (hvalue : digitsValue digits ≠ 0) : FullYear ('-' :: digits)

/-- A year in full width with two digits each for month and day. -/
inductive FullWidth : List Char → Prop
  | mk {year month day : List Char} (hyear : FullYear year) (hmonth : Digits 2 month)
      (hday : Digits 2 day) : FullWidth (year ++ '-' :: (month ++ '-' :: day))

end Forms

section Reading

variable {text rest : List Char}

/-- Behind a number a hyphen follows, or nothing. -/
theorem not_digit_hyphen (rest : List Char) : ∀ c ∈ ('-' :: rest).head?, c.isDigit = false := by
  rintro _ ⟨⟩
  rfl

private theorem exists_digits_of_readDigits? {most n : Nat}
    (h : readDigits? most text = some (n, rest)) :
    ∃ digits, Numeral digits ∧ digits.length ≤ most ∧ text = digits ++ rest ∧
      n = digitsValue digits := by
  unfold readDigits? at h
  obtain ⟨digits, hdigits⟩ : ∃ digits, (text.take most).takeWhile Char.isDigit = digits := ⟨_, rfl⟩
  simp only [hdigits] at h
  split at h
  · cases h
  · rename_i hne
    obtain ⟨rfl, rfl⟩ := Prod.mk.inj (Option.some.inj h)
    have hfront : digits <+: text.take most := hdigits ▸ List.takeWhile_prefix _
    refine ⟨digits, ⟨by simpa using hne, fun c hc => ?_⟩, ?_, ?_, rfl⟩
    · exact List.mem_takeWhile_imp (hdigits ▸ hc)
    · exact hfront.length_le.trans (List.length_take_le _ _)
    · exact (List.prefix_iff_eq_append.1 (hfront.trans (List.take_prefix _ _))).symm

private theorem exists_yearForm_of_readYear? {y : Int} (h : readYear? text = some (y, rest)) :
    ∃ year, YearForm year y ∧ text = year ++ rest := by
  have hsigned {f : Nat → Int} {text : List Char} {most : Nat}
      (h : (readDigits? most text).map (fun read => (f read.1, read.2)) = some (y, rest)) :
      ∃ digits, Numeral digits ∧ digits.length ≤ most ∧ text = digits ++ rest ∧
        y = f (digitsValue digits) := by
    obtain ⟨⟨n, rest'⟩, hread, heq⟩ := Option.map_eq_some_iff.1 h
    obtain ⟨rfl, rfl⟩ := Prod.mk.inj heq
    obtain ⟨digits, hdigits, hlength, htext, rfl⟩ := exists_digits_of_readDigits? hread
    exact ⟨digits, hdigits, hlength, htext, rfl⟩
  unfold readYear? at h
  split at h
  · obtain ⟨digits, hdigits, -, rfl, rfl⟩ := hsigned (f := fun n => -(n : Int)) h
    exact ⟨_, .minus hdigits, rfl⟩
  · obtain ⟨digits, hdigits, -, rfl, rfl⟩ := hsigned (f := fun n => (n : Int)) h
    exact ⟨_, .plus hdigits, rfl⟩
  · obtain ⟨digits, hdigits, hshort, rfl, rfl⟩ := hsigned (f := fun n => (n : Int)) h
    exact ⟨_, .plain hdigits hshort, rfl⟩

private theorem readYear?_append {year : List Char} {y : Int} (h : YearForm year y)
    (hrest : ∀ c ∈ rest.head?, c.isDigit = false) : readYear? (year ++ rest) = some (y, rest) := by
  cases h with
  | plain hdigits hshort =>
    have hread := readDigits?_append hdigits.ne_nil hdigits.isDigit hshort hrest
    obtain ⟨c, more, rfl⟩ := List.exists_cons_of_ne_nil hdigits.ne_nil
    obtain ⟨-, hminus, hplus⟩ := not_blank_of_isDigit (hdigits.isDigit c List.mem_cons_self)
    rw [List.cons_append] at hread ⊢
    rw [readYear?, hread]
    · rfl
    · rintro _ ⟨rfl, -⟩
      exact hminus rfl
    · rintro _ ⟨rfl, -⟩
      exact hplus rfl
  | plus hdigits =>
    rw [List.cons_append, readYear?,
      readDigits?_append hdigits.ne_nil hdigits.isDigit (by simp) hrest, Option.map_some]
  | minus hdigits =>
    rw [List.cons_append, readYear?,
      readDigits?_append hdigits.ne_nil hdigits.isDigit (by simp) hrest, Option.map_some]

private theorem exists_fieldForm_of_readDigits? {n : Nat}
    (h : readDigits? 2 (skipBlanks text) = some (n, rest)) :
    ∃ field, FieldForm field n ∧ text = field ++ rest := by
  obtain ⟨digits, hdigits, hshort, htext, rfl⟩ := exists_digits_of_readDigits? h
  obtain ⟨hblanks, -, hsplit⟩ := RuleText.Reader.takeWhile_spec isBlank text
  refine ⟨_, .mk hblanks hdigits hshort, ?_⟩
  rw [List.append_assoc, ← htext]
  exact hsplit.symm

private theorem readDigits?_field {field : List Char} {n : Nat} (h : FieldForm field n)
    (hrest : ∀ c ∈ rest.head?, c.isDigit = false) :
    readDigits? 2 (skipBlanks (field ++ rest)) = some (n, rest) := by
  obtain @⟨blanks, digits, hblanks, hdigits, hshort⟩ := h
  have hhead : ∀ c ∈ (digits ++ rest).head?, isBlank c = false := by
    obtain ⟨c, more, rfl⟩ := List.exists_cons_of_ne_nil hdigits.ne_nil
    rintro _ ⟨⟩
    exact (not_blank_of_isDigit (hdigits.isDigit c List.mem_cons_self)).1
  have hskip : skipBlanks (blanks ++ (digits ++ rest)) = digits ++ rest :=
    (RuleText.Reader.takeWhile_append hblanks hhead).2
  rw [List.append_assoc, hskip, readDigits?_append hdigits.ne_nil hdigits.isDigit hshort hrest]

private theorem readDigits?_field_end {field : List Char} {n : Nat} (h : FieldForm field n) :
    readDigits? 2 (skipBlanks field) = some (n, []) := by
  have hread : readDigits? 2 (skipBlanks (field ++ [])) = some (n, []) := readDigits?_field h nofun
  rwa [List.append_nil] at hread

private theorem readHyphen?_eq_some_iff : readHyphen? text = some rest ↔ text = '-' :: rest := by
  unfold readHyphen?
  split
  · rw [Option.some.injEq, List.cons.injEq, and_iff_right rfl]
  · rename_i hother
    exact iff_of_false nofun (hother rest)

/-- **Dates as they are read.** Behind its blanks a text is read as a date if it spells it. -/
theorem read?_eq_some_iff {d : Date} :
    read? false text = some d ↔ Spelling (skipBlanks text) d := by
  constructor
  · intro h
    simp only [read?, Bool.false_eq_true, if_false, Option.bind_eq_bind, Option.bind_eq_some_iff,
      Prod.exists, readHyphen?_eq_some_iff] at h
    obtain ⟨y, _, hreadYear, _, rfl, m, _, hreadMonth, _, rfl, n, rest, hreadDay, hdate⟩ := h
    split at hdate
    · rename_i hend
      obtain ⟨year, hyear, htext⟩ := exists_yearForm_of_readYear? hreadYear
      obtain ⟨month, hmonth, rfl⟩ := exists_fieldForm_of_readDigits? hreadMonth
      obtain ⟨day, hday, rfl⟩ := exists_fieldForm_of_readDigits? hreadDay
      obtain ⟨rfl, rfl, rfl⟩ := RuleText.Date.ofParts?_eq_some_iff.1 hdate
      rw [htext, List.isEmpty_iff.1 hend, List.append_nil]
      exact .mk hyear hmonth hday
    · cases hdate
  · intro h
    rw [read?]
    generalize skipBlanks text = spelling at h ⊢
    obtain @⟨year, month, day, d, hyear, hmonth, hday⟩ := h
    simp only [Bool.false_eq_true, if_false, Option.bind_eq_bind,
      readYear?_append hyear (not_digit_hyphen _), Option.bind_some, readHyphen?,
      readDigits?_field hmonth (not_digit_hyphen _), readDigits?_field_end hday, List.isEmpty_nil,
      if_true, ofParts?_self]

/-- A trimmed text starts with no blank. -/
theorem skipBlanks_trim (text : List Char) : skipBlanks (trim text) = trim text := by
  have hfront : trim text <+: skipBlanks text := by
    rw [trim, ← List.reverse_suffix, List.reverse_reverse]
    exact List.dropWhile_suffix _
  cases htrim : trim text with
  | nil => rfl
  | cons c rest =>
    obtain ⟨back, hback⟩ := hfront
    have hhead : c ∈ (text.dropWhile isBlank).head? := by
      rw [show text.dropWhile isBlank = _ from hback.symm, htrim]
      rfl
    exact skipBlanks_cons ((RuleText.Reader.takeWhile_spec isBlank text).2.1 c hhead)

/-- A text has one year, one month and one day at most. -/
theorem parts_unique {year month day year' month' day' : List Char} {y y' : Int} {m n m' n' : Nat}
    (hyear : YearForm year y) (hmonth : FieldForm month m) (hday : FieldForm day n)
    (hyear' : YearForm year' y') (hmonth' : FieldForm month' m') (hday' : FieldForm day' n')
    (htext : year ++ '-' :: (month ++ '-' :: day) = year' ++ '-' :: (month' ++ '-' :: day')) :
    y = y' ∧ m = m' ∧ n = n' := by
  have hread := congrArg readYear? htext
  rw [readYear?_append hyear (not_digit_hyphen _), readYear?_append hyear' (not_digit_hyphen _),
    Option.some.injEq, Prod.mk.injEq, List.cons.injEq] at hread
  obtain ⟨rfl, -, hbehindYear⟩ := hread
  have hread := congrArg (readDigits? 2 ∘ skipBlanks) hbehindYear
  simp only [Function.comp_apply] at hread
  rw [readDigits?_field hmonth (not_digit_hyphen _), readDigits?_field hmonth' (not_digit_hyphen _),
    Option.some.injEq, Prod.mk.injEq, List.cons.injEq] at hread
  obtain ⟨rfl, -, rfl⟩ := hread
  have hread := (readDigits?_field_end hday).symm.trans (readDigits?_field_end hday')
  exact ⟨rfl, rfl, congrArg Prod.fst (Option.some.inj hread)⟩

end Reading

section Padding

variable {digits : List Char} {n width : Nat}

/-- Digits of the width, or more of them without a leading zero, are what the number they write is
padded to. -/
theorem padded_digitsValue (h : Numeral digits)
    (hlong : digits.length = width ∨ width < digits.length ∧ digits.head? ≠ some '0') :
    padded width (digitsValue digits) = digits := by
  obtain ⟨zeros, hzeros⟩ := exists_zeros h
  have hlength := congrArg List.length hzeros
  rw [List.length_append, List.length_replicate] at hlength
  have hcount : width - (natDigits (digitsValue digits)).length = zeros := by
    rcases hlong with hwidth | ⟨hmore, hhead⟩
    · omega
    · cases zeros with
      | zero => omega
      | succ zeros =>
        rw [hzeros] at hhead
        exact absurd rfl hhead
  rw [padded, hcount, ← hzeros]

/-- What a number is padded to has the width, or more digits without a leading zero. -/
theorem length_padded (width n : Nat) : (padded width n).length = width ∨
    width < (padded width n).length ∧ (n ≠ 0 → (padded width n).head? ≠ some '0') := by
  rcases Nat.lt_or_ge width (natDigits n).length with hmore | hfew
  · have hpadded : padded width n = natDigits n := by
      rw [padded, Nat.sub_eq_zero_of_le hmore.le, List.replicate_zero, List.nil_append]
    rw [hpadded]
    exact .inr ⟨hmore, head?_natDigits_ne⟩
  · refine .inl ?_
    rw [padded, List.length_append, List.length_replicate]
    omega

/-- A number has more digits than the width exactly if it needs them. -/
theorem length_padded_le_iff (hwidth : 0 < width) (n : Nat) :
    (padded width n).length ≤ width ↔ n < 10 ^ width := by
  rw [← Nat.length_toDigits_le_iff (by decide) hwidth, padded, List.length_append,
    List.length_replicate, natDigits]
  omega

private theorem numeral_padded (width n : Nat) : Numeral (padded width n) :=
  ⟨padded_ne_nil width n, fun _ => isDigit_of_mem_padded⟩

end Padding

section Full

variable {text : List Char} {d : Date}

private theorem numeral_of_digits {count : Nat} {digits : List Char}
    (h : Digits (count + 1) digits) :
    Numeral digits :=
  ⟨List.ne_nil_of_length_eq_add_one h.length_eq, h.isDigit⟩

/-- A year in full width is read as the year whose text it is. -/
theorem FullYear.exists_yearForm {year : List Char} (h : FullYear year) :
    ∃ y, YearForm year y ∧ year = yearText y := by
  have hwide {digits : List Char} (hpadded : padded 4 (digitsValue digits) = digits) :
      digits.length ≤ 4 ↔ digitsValue digits < 10 ^ 4 := by
    rw [← length_padded_le_iff (by decide), hpadded]
  cases h with
  | plain hdigits =>
    have hpadded := padded_digitsValue (numeral_of_digits hdigits) (.inl hdigits.length_eq)
    have hsmall := (hwide hpadded).1 hdigits.length_eq.le
    refine ⟨_, .plain (numeral_of_digits hdigits) hdigits.length_eq.le, ?_⟩
    rw [yearText, if_pos (by omega), Int.toNat_natCast, hpadded]
  | plus hdigits hlong hhead =>
    have hpadded := padded_digitsValue hdigits (.inr ⟨hlong, hhead⟩)
    have hlarge : ¬digitsValue _ < 10 ^ 4 := fun h => by
      have := (hwide hpadded).2 h
      omega
    refine ⟨_, .plus hdigits, ?_⟩
    rw [yearText, if_neg (by omega), if_neg (by omega), Int.natAbs_natCast, hpadded]
  | minus hdigits hlong hvalue =>
    have hpadded := padded_digitsValue hdigits hlong
    refine ⟨_, .minus hdigits, ?_⟩
    rw [yearText, if_neg (by omega), if_pos (by omega), Int.natAbs_neg, Int.natAbs_natCast, hpadded]

private theorem fullYear_yearText (y : Int) : FullYear (yearText y) := by
  unfold yearText
  split
  · rename_i hplain
    have hshort := (length_padded_le_iff (show 0 < 4 by decide) y.toNat).2 (by omega)
    refine .plain ⟨?_, fun _ => isDigit_of_mem_padded⟩
    rcases length_padded 4 y.toNat with hlength | ⟨hlong, -⟩
    · exact hlength
    · omega
  · split
    · refine .minus (numeral_padded 4 _) ?_ ?_
      · exact (length_padded 4 _).imp_right fun h => ⟨h.1, h.2 (by omega)⟩
      · rw [digitsValue_padded]
        omega
    · have hlarge := (length_padded_le_iff (show 0 < 4 by decide) y.natAbs).not.2 (by omega)
      rcases length_padded 4 y.natAbs with hlength | ⟨hlong, hhead⟩
      · omega
      · exact .plus (numeral_padded 4 _) hlong (hhead (by omega))

/-- Two digits are read as the number that is padded to them. -/
theorem fieldForm_of_digits {digits : List Char} (h : Digits 2 digits) :
    FieldForm digits (digitsValue digits) ∧ padded 2 (digitsValue digits) = digits := by
  have hform : FieldForm ([] ++ digits) (digitsValue digits) :=
    .mk nofun (numeral_of_digits h) h.length_eq.le
  exact ⟨hform, padded_digitsValue (numeral_of_digits h) (.inl h.length_eq)⟩

private theorem digits_padded {n : Nat} (h : n < 100) : Digits 2 (padded 2 n) := by
  have hshort := (length_padded_le_iff (show 0 < 2 by decide) n).2 h
  refine ⟨?_, fun _ => isDigit_of_mem_padded⟩
  rcases length_padded 2 n with hlength | ⟨hlong, -⟩
  · exact hlength
  · omega

/-- The spelling of a date in full width is the date's text, and no other text is one. -/
theorem eq_text_iff : text = d.text.toList ↔ Spelling text d ∧ FullWidth text := by
  constructor
  · rintro rfl
    constructor
    · have hread := read?_eq_some_iff.1 (read?_text false d)
      rwa [← trim_text, skipBlanks_trim, trim_text] at hread
    · obtain ⟨hmonth, hday⟩ := lt_of_exists d.exists_day
      rw [toList_text]
      exact .mk (fullYear_yearText d.year) (digits_padded hmonth) (digits_padded hday)
  · rintro ⟨hspelling, hfull⟩
    obtain @⟨year, month, day, hfullYear, hmonth, hday⟩ := hfull
    obtain ⟨y, hyear, hyearText⟩ := hfullYear.exists_yearForm
    obtain ⟨hmonthForm, hmonthText⟩ := fieldForm_of_digits hmonth
    obtain ⟨hdayForm, hdayText⟩ := fieldForm_of_digits hday
    generalize htext : year ++ '-' :: (month ++ '-' :: day) = text at hspelling
    obtain ⟨hyear', hmonth', hday'⟩ := hspelling
    obtain ⟨rfl, hm, hn⟩ :=
      parts_unique hyear hmonthForm hdayForm hyear' hmonth' hday' htext
    rw [← htext, toList_text, ← hyearText, ← hm, ← hn, hmonthText, hdayText]

end Full

end Bookkeeping.Date

namespace Bookkeeping.Value

open Bookkeeping.Text
open Date (Spelling FullWidth)

/-- **Texts read as dates.** A text is read as a date exactly if, trimmed, it spells the date. The
date's own text is the one spelling of it in full width; all others are read as well. -/
theorem text_date_iff (s : String) (d : Date) :
    ((Value.text s).date? = some d ↔ Spelling (trim s.toList) d) ∧
      (trim s.toList = d.text.toList ↔
        (Value.text s).date? = some d ∧ FullWidth (trim s.toList)) := by
  have hread : (Value.text s).date? = some d ↔ Spelling (trim s.toList) d := by
    rw [date?, Date.read?_eq_some_iff, Date.skipBlanks_trim]
  exact ⟨hread, by rw [hread, Date.eq_text_iff]⟩

/-- A text with one digit each for month and day is read as a date, and so is one with blanks and a
sign. Neither is the text of the date. -/
theorem text_date_lenient :
    let d : Date := ⟨2024, 2, 9, by decide⟩
    ((Value.text "2024-2-9").date? = some d ∧ trim "2024-2-9".toList ≠ d.text.toList) ∧
      (Value.text "+2024- 02-9").date? = some d ∧ trim "+2024- 02-9".toList ≠ d.text.toList := by
  decide +kernel

end Bookkeeping.Value
