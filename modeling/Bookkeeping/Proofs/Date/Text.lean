import Bookkeeping.Binary64.Numeral
import Bookkeeping.Date.Text

/-!
# Dates that are read back

The text of a date is read as that date, in the spaced form as well: it has no blanks, and each of
its numbers ends where a hyphen or the text does. It is not read as a number, for the hyphen behind
the year belongs to none.
-/

namespace Bookkeeping.Date

open Bookkeeping.Text

section Digits

/-- Leading zeros do not count. -/
theorem digitsValue_replicate_zero (zeros : Nat) (digits : List Char) :
    digitsValue (List.replicate zeros '0' ++ digits) = digitsValue digits := by
  induction zeros with
  | zero => rfl
  | succ zeros ih =>
    rw [List.replicate_succ, List.cons_append, digitsValue, Nat.ofDigitChars_cons]
    exact ih

/-- Leading zeros do not change the number. -/
theorem digitsValue_padded (width n : Nat) : digitsValue (padded width n) = n := by
  rw [padded, digitsValue_replicate_zero, digitsValue_natDigits]

/-- Every character of a padded number is a digit. -/
theorem isDigit_of_mem_padded {width n : Nat} {c : Char} (h : c ∈ padded width n) :
    c.isDigit = true := by
  rcases List.mem_append.1 h with hzero | hdigit
  · rw [List.eq_of_mem_replicate hzero]
    decide
  · exact Nat.isDigit_of_mem_toDigits (by decide) (by decide) hdigit

/-- A padded number has a digit at least. -/
theorem padded_ne_nil (width n : Nat) : padded width n ≠ [] := by
  rw [padded, ne_eq, List.append_eq_nil_iff, not_and]
  exact fun _ => Nat.toDigits_ne_nil

private theorem exists_padded_eq_cons (width n : Nat) :
    ∃ c digits, padded width n = c :: digits ∧ c.isDigit = true := by
  obtain ⟨c, digits, hdigits⟩ := List.exists_cons_of_ne_nil (padded_ne_nil width n)
  exact ⟨c, digits, hdigits, isDigit_of_mem_padded (hdigits ▸ List.mem_cons_self)⟩

/-- A number of no more digits than the width has that many when padded. -/
theorem length_padded_le {width n : Nat} (h : (natDigits n).length ≤ width) :
    (padded width n).length ≤ width := by
  rw [padded, List.length_append, List.length_replicate]
  omega

/-- Digits stand together in the order of characters. -/
theorem toNat_of_isDigit {c : Char} (h : c.isDigit = true) : 48 ≤ c.toNat ∧ c.toNat ≤ 57 := by
  simpa [Char.isDigit, UInt32.le_iff_toNat_le] using h

/-- A digit is neither a blank nor a sign. -/
theorem not_blank_of_isDigit {c : Char} (h : c.isDigit = true) :
    isBlank c = false ∧ c ≠ '-' ∧ c ≠ '+' := by
  refine ⟨?_, ?_, ?_⟩
  · have hrange := toNat_of_isDigit h
    simp only [isBlank, Bool.or_eq_false_iff, Bool.and_eq_false_iff, decide_eq_false_iff_not,
      beq_eq_false_iff_ne]
    omega
  · rintro rfl
    cases h
  · rintro rfl
    cases h

/-- Digits are read up to where something else follows. -/
theorem readDigits?_append {most : Nat} {digits rest : List Char} (hne : digits ≠ [])
    (hdigits : ∀ c ∈ digits, c.isDigit = true) (hmost : digits.length ≤ most)
    (hrest : ∀ c ∈ rest.head?, c.isDigit = false) :
    readDigits? most (digits ++ rest) = some (digitsValue digits, rest) := by
  have htaken : ((digits ++ rest).take most).takeWhile Char.isDigit = digits := by
    have hnone : (rest.take (most - digits.length)).takeWhile Char.isDigit = [] := by
      cases rest with
      | nil => simp
      | cons c rest =>
        cases most - digits.length with
        | zero => rfl
        | succ left => simp [hrest c rfl]
    rw [List.take_append, List.take_of_length_le hmost, List.takeWhile_append_of_pos hdigits,
      hnone, List.append_nil]
  rw [readDigits?, htaken]
  simp [hne]

end Digits

section Reading

variable {rest : List Char}

/-- Without a blank in front nothing is passed over. -/
theorem skipBlanks_cons {c : Char} (h : isBlank c = false) :
    skipBlanks (c :: rest) = c :: rest := by
  rw [skipBlanks, List.dropWhile_cons_of_neg (by simp [h])]

private theorem skipBlanks_padded (width n : Nat) :
    skipBlanks (padded width n ++ rest) = padded width n ++ rest := by
  obtain ⟨c, digits, hdigits, hdigit⟩ := exists_padded_eq_cons width n
  rw [hdigits]
  exact skipBlanks_cons (not_blank_of_isDigit hdigit).1

/-- A number of the width is read where no digit follows. -/
theorem readDigits?_padded {width n most : Nat} (hmost : (padded width n).length ≤ most)
    (hrest : ∀ c ∈ rest.head?, c.isDigit = false) :
    readDigits? most (padded width n ++ rest) = some (n, rest) := by
  rw [readDigits?_append (padded_ne_nil width n) (fun c => isDigit_of_mem_padded) hmost hrest,
    digitsValue_padded]

/-- A year is read where no digit follows. -/
theorem readYear?_yearText (year : Int) (hrest : ∀ c ∈ rest.head?, c.isDigit = false) :
    readYear? (yearText year ++ rest) = some (year, rest) := by
  have hsigned : readDigits? (padded 4 year.natAbs ++ rest).length (padded 4 year.natAbs ++ rest) =
      some (year.natAbs, rest) := readDigits?_padded (by simp) hrest
  unfold yearText
  split
  · rename_i hplain
    have hmost : (padded 4 year.toNat).length ≤ 4 :=
      length_padded_le ((Nat.length_toDigits_le_iff (by decide) (by decide)).2 (by omega))
    have hread := readDigits?_padded hmost hrest
    obtain ⟨c, digits, hdigits, hdigit⟩ := exists_padded_eq_cons 4 year.toNat
    obtain ⟨-, hminus, hplus⟩ := not_blank_of_isDigit hdigit
    have hvalue : (year.toNat : Int) = year := Int.toNat_of_nonneg hplain.1
    rw [hdigits, List.cons_append] at hread ⊢
    rw [readYear?, hread]
    · exact congrArg (fun year => some (year, rest)) hvalue
    · rintro _ ⟨rfl, -⟩
      exact hminus rfl
    · rintro _ ⟨rfl, -⟩
      exact hplus rfl
  · split
    · have hvalue : -(year.natAbs : Int) = year := by omega
      rw [List.cons_append, readYear?, hsigned]
      exact congrArg (fun year => some (year, rest)) hvalue
    · have hvalue : (year.natAbs : Int) = year := by omega
      rw [List.cons_append, readYear?, hsigned]
      exact congrArg (fun year => some (year, rest)) hvalue

private theorem skipBlanks_yearText (year : Int) :
    skipBlanks (yearText year ++ rest) = yearText year ++ rest := by
  unfold yearText
  split
  · exact skipBlanks_padded 4 _
  · split
    · exact skipBlanks_cons (by decide)
    · exact skipBlanks_cons (by decide)

/-- The text of a day is its year, its month and its day with hyphens between them. -/
theorem toList_text (d : Date) : d.text.toList =
    yearText d.year ++ '-' :: (padded 2 d.month ++ '-' :: padded 2 d.day) := by
  rw [text, String.toList_ofList, List.append_assoc, List.cons_append]

/-- No month has more than 31 days, and there are no more than 12 months. -/
theorem lt_of_exists {year : Int} {month day : Nat} (h : Exists year month day) :
    month < 100 ∧ day < 100 := by
  obtain ⟨-, -, hfirst, hlast⟩ := h
  unfold daysInMonth at hlast
  split at hlast
  · split at hlast <;> omega
  all_goals omega

/-- **Dates as text.** The text of a date is read as the date, blanks being allowed in it or not. -/
theorem read?_text (spaced : Bool) (d : Date) : read? spaced d.text.toList = some d := by
  obtain ⟨hmonth, hday⟩ := lt_of_exists d.exists_day
  have hhyphen (rest : List Char) : ∀ c ∈ ('-' :: rest).head?, c.isDigit = false := by
    rintro c hc
    rw [List.head?_cons, Option.mem_some_iff] at hc
    rw [← hc]
    decide
  have hpause (rest : List Char) :
      (if spaced = true then skipBlanks ('-' :: rest) else '-' :: rest) = '-' :: rest := by
    rw [skipBlanks_cons (by decide), ite_self]
  have hnext (n : Nat) (rest : List Char) (h : n < 100)
      (hrest : ∀ c ∈ rest.head?, c.isDigit = false) :
      readDigits? 2 (padded 2 n ++ rest) = some (n, rest) :=
    readDigits?_padded
      (length_padded_le ((Nat.length_toDigits_le_iff (by decide) (by decide)).2 h)) hrest
  rw [toList_text, read?]
  simp only [skipBlanks_yearText, readYear?_yearText d.year (hhyphen _), Option.bind_eq_bind,
    Option.bind_some, hpause, readHyphen?, skipBlanks_padded, hnext d.month _ hmonth (hhyphen _)]
  -- the day ends the text
  rw [← List.append_nil (padded 2 d.day), skipBlanks_padded, hnext d.day [] hday (by simp)]
  have hend : (if spaced = true then skipBlanks [] else []).isEmpty = true := by
    cases spaced <;> rfl
  simp only [Option.bind_some, hend, if_true, ofParts?_self]

end Reading

section Numerals

/-- The text of a date starts with a digit or a sign and ends with a digit. -/
theorem trim_text (d : Date) : trim d.text.toList = d.text.toList := by
  have hfront : skipBlanks d.text.toList = d.text.toList := by
    rw [toList_text, skipBlanks_yearText]
  have hback : skipBlanks d.text.toList.reverse = d.text.toList.reverse := by
    obtain ⟨c, digits, hday⟩ := List.exists_cons_of_ne_nil
      (List.reverse_ne_nil_iff.2 (padded_ne_nil 2 d.day))
    have hdigit : c.isDigit = true :=
      isDigit_of_mem_padded (List.mem_reverse.1 (hday ▸ List.mem_cons_self))
    rw [toList_text]
    simp only [List.reverse_append, List.reverse_cons, hday, List.append_assoc, List.cons_append]
    exact skipBlanks_cons (not_blank_of_isDigit hdigit).1
  rw [trim, hfront, hback, List.reverse_reverse]

private theorem spanSign_padded (width n : Nat) (rest : List Char) :
    spanSign (padded width n ++ rest) = (false, padded width n ++ rest) := by
  obtain ⟨c, digits, hdigits, hdigit⟩ := exists_padded_eq_cons width n
  obtain ⟨-, hminus, hplus⟩ := not_blank_of_isDigit hdigit
  rw [hdigits, List.cons_append]
  unfold spanSign
  split
  · rename_i hhead
    exact absurd (List.cons.inj hhead).1 hminus
  · rename_i hhead
    exact absurd (List.cons.inj hhead).1 hplus
  · rfl

/-- After its sign, if it has one, the text of a date has the digits of the year and then a
hyphen. -/
theorem spanSign_text (d : Date) : ∃ negative year rest,
    spanSign d.text.toList = (negative, padded 4 year ++ '-' :: rest) := by
  rw [toList_text, yearText]
  split
  · exact ⟨false, d.year.toNat, _, spanSign_padded ..⟩
  · split
    · exact ⟨true, d.year.natAbs, _, rfl⟩
    · exact ⟨false, d.year.natAbs, _, rfl⟩

/-- The text of a date is no integer. -/
theorem readInt64?_text (d : Date) : readInt64? d.text.toList = none := by
  obtain ⟨negative, year, rest, hspan⟩ := d.spanSign_text
  have hdigits : (padded 4 year ++ '-' :: rest).all Char.isDigit = false := by
    rw [List.all_append, List.all_cons, show Char.isDigit '-' = false from rfl, Bool.false_and,
      Bool.and_false]
  simp only [readInt64?, hspan, hdigits, Bool.not_false, Bool.or_true, if_true]

/-- The text of a date is no numeral either: the hyphen behind the year starts no exponent. -/
theorem readBinary64?_text (d : Date) : Binary64.read? d.text.toList = none := by
  obtain ⟨negative, year, rest, hspan⟩ := d.spanSign_text
  have hhyphen : '-' ∈ (padded 4 year ++ '-' :: rest).map Char.toLower :=
    List.mem_map.2 ⟨'-', by simp, rfl⟩
  have hname (name : List Char) (hno : '-' ∉ name) :
      (padded 4 year ++ '-' :: rest).map Char.toLower ≠ name :=
    fun h => hno (h ▸ hhyphen)
  have hdigits : spanDigits (padded 4 year ++ '-' :: rest) = (padded 4 year, '-' :: rest) := by
    have hyear : ∀ c ∈ padded 4 year, c.isDigit = true := fun c => isDigit_of_mem_padded
    rw [spanDigits, List.takeWhile_append_of_pos hyear, List.dropWhile_append_of_pos hyear,
      List.takeWhile_cons_of_neg (by decide), List.dropWhile_cons_of_neg (by decide),
      List.append_nil]
  rw [Binary64.read?, hspan]
  simp only [hname _ (by decide : '-' ∉ ['i', 'n', 'f']),
    hname _ (by decide : '-' ∉ ['i', 'n', 'f', 'i', 'n', 'i', 't', 'y']),
    hname _ (by decide : '-' ∉ ['n', 'a', 'n']), or_self, if_false, Binary64.readMagnitude?,
    hdigits, List.isEmpty_eq_false_iff.2 (padded_ne_nil 4 year)]
  rfl

end Numerals

end Bookkeeping.Date
