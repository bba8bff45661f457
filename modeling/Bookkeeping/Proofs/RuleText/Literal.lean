import Bookkeeping.Proofs.RuleText.Layout

/-!
# Values, read

Which text a value of each kind is read from. A date and a text in quotes end themselves; a number
is read to its last digit, so no digit may follow it, and an integer must not turn into a decimal or
a date.
-/

namespace Bookkeeping.RuleText

open Bookkeeping.Text Reader

variable {text rest : List Char}

section Quotes

/-- The rest of a quoted text is read as it is spelled. -/
private theorem quotedRest_eq_ok_iff {found : List Char} :
    quotedRest text = .ok (found, rest) ↔ QuotedRest text rest found := by
  constructor
  · intro h
    fun_induction quotedRest text generalizing found with
    | case1 => cases h
    | case2 text =>
      obtain ⟨rfl, rfl⟩ := Prod.mk.inj (Except.ok.inj h)
      exact .close _
    | case3 => cases h
    | case4 c text ih =>
      obtain ⟨⟨inner, after⟩, hinner, hsame⟩ := map_eq_ok_iff.1 h
      obtain ⟨rfl, rfl⟩ := Prod.mk.inj hsame
      exact .escape c (ih hinner)
    | case5 c text hquote hlast hescape ih =>
      obtain ⟨⟨inner, after⟩, hinner, hsame⟩ := map_eq_ok_iff.1 h
      obtain ⟨rfl, rfl⟩ := Prod.mk.inj hsame
      refine .plain hquote ?_ (ih hinner)
      rintro rfl
      cases text with
      | nil => exact hlast rfl rfl
      | cons d text => exact hescape d text rfl rfl
  · intro h
    induction h with
    | close rest => rfl
    | escape c hfound ih => rw [quotedRest, ih]; rfl
    | plain hquote hbackslash hfound ih =>
      rw [quotedRest, ih]
      · rfl
      · exact hquote
      · exact fun h _ => hbackslash h
      · exact fun _ _ h _ => hbackslash h

private theorem mild_quotedRest : Mild quotedRest := by
  intro text refusal h
  fun_induction quotedRest text generalizing refusal with
  | case1 =>
    obtain rfl := Except.error.inj h
    rfl
  | case2 text => cases h
  | case3 =>
    obtain rfl := Except.error.inj h
    rfl
  | case4 c text ih => exact ih refusal (map_eq_error_iff.1 h)
  | case5 c text _ _ _ ih => exact ih refusal (map_eq_error_iff.1 h)

private theorem mild_quoted : Mild quoted :=
  (mild_char '"').bind fun _ => mild_quotedRest.bind fun _ => mild_pure _

/-- A quoted text is read up to its closing quote, with its escapes resolved. -/
theorem quoted_eq_ok_iff {found : String} :
    quoted text = .ok (found, rest) ↔ Quoted text rest found := by
  simp only [quoted, steps_eq_ok_iff, char_eq_ok_iff, pure_eq_ok_iff, Prod.mk.injEq]
  constructor
  · rintro ⟨_, between, rfl, inner, after, hinner, rfl, rfl⟩
    exact .mk (quotedRest_eq_ok_iff.1 hinner)
  · rintro ⟨hfound⟩
    exact ⟨(), _, rfl, _, _, quotedRest_eq_ok_iff.2 hfound, rfl, rfl⟩

end Quotes

section Dates

/-- So many digits are read where they stand. -/
private theorem digits_eq_ok_iff {count : Nat} {found : List Char} :
    digits count text = .ok (found, rest) ↔ Digits count found ∧ text = found ++ rest := by
  constructor
  · intro h
    unfold digits at h
    dsimp only at h
    split at h
    · rename_i hlength
      obtain ⟨rfl, rfl⟩ := Prod.mk.inj (Except.ok.inj h)
      have hall : (text.take count).takeWhile Char.isDigit = text.take count := by
        refine (List.takeWhile_prefix _).eq_of_length_le ?_
        rw [hlength]
        exact List.length_take_le _ _
      refine ⟨⟨hlength, (takeWhile_spec _ _).1⟩, ?_⟩
      rw [hall, List.take_append_drop]
    · cases h
  · rintro ⟨⟨rfl, hdigits⟩, rfl⟩
    have hall : found.takeWhile Char.isDigit = found := List.takeWhile_eq_self_iff.2 hdigits
    simp [digits, hall]

/-- Parts make up a day when they are those of the day. -/
theorem Date.ofParts?_eq_some_iff {year : Int} {month day : Nat} {date : Date} :
    Date.ofParts? year month day = some date ↔
      date.year = year ∧ date.month = month ∧ date.day = day := by
  constructor
  · intro h
    unfold Date.ofParts? at h
    split at h
    · obtain rfl := Option.some.inj h
      exact ⟨rfl, rfl, rfl⟩
    · cases h
  · rintro ⟨rfl, rfl, rfl⟩
    exact Date.ofParts?_self date

/-- The parts of a date are read where four, two and two digits stand with hyphens between them. -/
private theorem dateParts_eq_ok_iff {found : Nat × Nat × Nat} :
    dateParts text = .ok (found, rest) ↔ ∃ year month day, Digits 4 year ∧ Digits 2 month ∧
      Digits 2 day ∧ text = year ++ '-' :: (month ++ '-' :: (day ++ rest)) ∧
        found = (digitsValue year, digitsValue month, digitsValue day) := by
  simp only [dateParts, steps_eq_ok_iff, char_eq_ok_iff, pure_eq_ok_iff, digits_eq_ok_iff,
    Prod.mk.injEq]
  constructor
  · rintro ⟨year, _, ⟨hyear, rfl⟩, _, _, rfl, month, _, ⟨hmonth, rfl⟩, _, _, rfl, day, _,
      ⟨hday, rfl⟩, rfl, rfl⟩
    exact ⟨year, month, day, hyear, hmonth, hday, rfl, rfl⟩
  · rintro ⟨year, month, day, hyear, hmonth, hday, rfl, rfl⟩
    exact ⟨year, _, ⟨hyear, rfl⟩, (), _, rfl, month, _, ⟨hmonth, rfl⟩, (), _, rfl, day, _,
      ⟨hday, rfl⟩, rfl, rfl⟩

private theorem mild_dateParts : Mild dateParts :=
  (mild_digits 4).bind fun _ => (mild_char '-').bind fun _ => (mild_digits 2).bind fun _ =>
    (mild_char '-').bind fun _ => (mild_digits 2).bind fun _ => mild_pure _

/-- A day is read from a year, a month and a day that the calendar has. -/
theorem date_eq_ok_iff {found : Date} :
    date text = .ok (found, rest) ↔ DateForm text rest found := by
  unfold date
  simp only [bind_eq_ok_iff, Prod.exists, dateParts_eq_ok_iff, Prod.mk.injEq]
  constructor
  · rintro ⟨_, _, _, after, ⟨year, month, day, hyear, hmonth, hday, rfl, rfl, rfl, rfl⟩, h⟩
    split at h
    · rename_i date hdate
      obtain ⟨rfl, rfl⟩ := Prod.mk.inj (Except.ok.inj h)
      obtain ⟨year_eq, month_eq, day_eq⟩ := Date.ofParts?_eq_some_iff.1 hdate
      exact .mk hyear hmonth hday year_eq month_eq day_eq
    · cases h
  · rintro ⟨hyear, hmonth, hday, year_eq, month_eq, day_eq⟩
    refine ⟨_, _, _, _, ⟨_, _, _, hyear, hmonth, hday, rfl, rfl, rfl, rfl⟩, ?_⟩
    rw [Date.ofParts?_eq_some_iff.2 ⟨year_eq, month_eq, day_eq⟩]

private theorem mild_date : Mild date := by
  intro text refusal h
  unfold date at h
  cases hparts : dateParts text with
  | error cause =>
    rw [hparts, error_bind] at h
    exact Except.error.inj h ▸ mild_dateParts text cause hparts
  | ok parts =>
    rw [hparts, ok_bind] at h
    dsimp only at h
    split at h
    · cases h
    · obtain rfl := Except.error.inj h
      rfl

end Dates

section Numbers

/-- Digits are read as far as they go. -/
private theorem run_isDigit_eq_ok_iff {found : List Char} :
    run Char.isDigit text = .ok (found, rest) ↔
      Numeral found ∧ text = found ++ rest ∧ ∀ c ∈ rest.head?, c.isDigit = false := by
  constructor
  · intro h
    unfold run at h
    dsimp only at h
    split at h
    · cases h
    · rename_i hne
      obtain ⟨rfl, rfl⟩ := Prod.mk.inj (Except.ok.inj h)
      obtain ⟨hdigits, hends, hsplit⟩ := takeWhile_spec Char.isDigit text
      exact ⟨⟨by simpa using hne, hdigits⟩, hsplit.symm, hends⟩
  · rintro ⟨⟨hne, hdigits⟩, rfl, hends⟩
    obtain ⟨htake, hdrop⟩ := takeWhile_append hdigits hends
    simp [run, htake, hdrop, hne]

/-- A numeral starts with a digit. -/
private theorem Numeral.exists_head {digits : List Char} (h : Numeral digits) (rest : List Char) :
    ∃ c ∈ (digits ++ rest).head?, c.isDigit = true := by
  obtain ⟨hne, hdigits⟩ := h
  cases digits with
  | nil => exact absurd rfl hne
  | cons c more => exact ⟨c, rfl, hdigits c (List.mem_cons_self ..)⟩

/-- What is read as a decimal has the form of one. -/
private theorem sound_decimal : Sound decimal DecimalForm := by
  intro text rest found h
  simp only [decimal, steps_eq_ok_iff, option_eq_ok_iff, char_eq_ok_iff, pure_eq_ok_iff,
    run_isDigit_eq_ok_iff, Prod.mk.injEq] at h
  obtain ⟨sign, between, hsign, whole, _, ⟨hwhole, rfl, -⟩, _, _, rfl, fraction, _,
    ⟨hfraction, rfl, -⟩, rfl, rfl⟩ := h
  rcases hsign with ⟨_, _, rfl, rfl, rfl⟩ | ⟨-, rfl, rfl⟩
  · exact .minus hwhole hfraction (Binary64.nearest_ofDecimal ..)
  · exact .unsigned hwhole hfraction (Binary64.nearest_ofDecimal ..)

private theorem mild_decimal : Mild decimal :=
  (mild_char '-').option.bind fun _ => (mild_run _).bind fun _ => (mild_char '.').bind fun _ =>
    (mild_run _).bind fun _ => mild_pure _

/-- The point ends the whole digits, so a decimal is read as it is written. -/
theorem decimal_eq_ok {found : Binary64} (h : DecimalForm text rest found)
    (hends : ∀ c ∈ rest.head?, c.isDigit = false) : decimal text = .ok (found, rest) := by
  have hpoint (fraction : List Char) :
      ∀ c ∈ ('.' :: (fraction ++ rest)).head?, c.isDigit = false := by
    rintro _ ⟨⟩
    rfl
  simp only [decimal, steps_eq_ok_iff, option_eq_ok_iff, char_eq_ok_iff, pure_eq_ok_iff,
    run_isDigit_eq_ok_iff, Prod.mk.injEq]
  cases h with
  | @unsigned whole fraction rest found hwhole hfraction hx =>
    have hrefuses : Refuses (char '-') (whole ++ '.' :: (fraction ++ rest)) := by
      refine (mild_char '-').refuses fun result hread => ?_
      obtain ⟨c, hc, hdigit⟩ := hwhole.exists_head ('.' :: (fraction ++ rest))
      rw [char_eq_ok_iff.1 hread] at hc
      cases hc
      cases hdigit
    exact ⟨none, _, .inr ⟨hrefuses, rfl, rfl⟩, whole, _, ⟨hwhole, rfl, hpoint fraction⟩, (), _,
      rfl, fraction, _, ⟨hfraction, rfl, hends⟩, (Binary64.nearest_iff_eq_ofDecimal.1 hx).symm,
      rfl⟩
  | @minus whole fraction rest found hwhole hfraction hx =>
    exact ⟨some (), _, .inl ⟨(), _, rfl, rfl, rfl⟩, whole, _, ⟨hwhole, rfl, hpoint fraction⟩, (),
      _, rfl, fraction, _, ⟨hfraction, rfl, hends⟩,
      (Binary64.nearest_iff_eq_ofDecimal.1 hx).symm, rfl⟩

/-- A positive numeral has a first digit that is not zero, and any others. -/
private theorem positive_cons_iff {c : Char} {more : List Char} :
    Positive (c :: more) ↔ ('1' ≤ c ∧ c ≤ '9') ∧ ∀ d ∈ more, d.isDigit = true := by
  have hdigit : '1' ≤ c → (c ≤ '9' ↔ c.isDigit = true) := by
    intro hc
    have hzero : '0' ≤ c := Char.le_trans (by decide) hc
    simp only [Char.isDigit, Bool.and_eq_true, decide_eq_true_eq]
    exact ⟨fun h => ⟨hzero, h⟩, And.right⟩
  constructor
  · rintro ⟨hhead, -, hdigits⟩
    obtain ⟨hc, hmore⟩ := List.forall_mem_cons.1 hdigits
    have hpositive := hhead c rfl
    exact ⟨⟨hpositive, (hdigit hpositive).2 hc⟩, hmore⟩
  · rintro ⟨⟨hpositive, hnine⟩, hmore⟩
    refine ⟨?_, List.cons_ne_nil c more,
      List.forall_mem_cons.2 ⟨(hdigit hpositive).1 hnine, hmore⟩⟩
    rintro _ ⟨⟩
    exact hpositive

/-- The digits of a positive integer start with one that is not zero. -/
theorem Positive.exists_cons {digits : List Char} (h : Positive digits) :
    ∃ c more, digits = c :: more ∧ ('1' ≤ c ∧ c ≤ '9') ∧ ∀ d ∈ more, d.isDigit = true := by
  cases digits with
  | nil => exact absurd rfl h.toNumeral.ne_nil
  | cons c more => exact ⟨c, more, rfl, positive_cons_iff.1 h⟩

/-- The digits of a positive integer are all that follow its first one. -/
theorem positive_append_iff {c : Char} {more digits : List Char} :
    (c :: more = digits ++ rest ∧ Positive digits ∧ ∀ d ∈ rest.head?, d.isDigit = false) ↔
      ('1' ≤ c ∧ c ≤ '9') ∧ digits = c :: more.takeWhile Char.isDigit ∧
        more.dropWhile Char.isDigit = rest := by
  constructor
  · rintro ⟨htext, hpositive, hends⟩
    obtain ⟨d, tail, rfl, hd, htail⟩ := hpositive.exists_cons
    rw [List.cons_append, List.cons.injEq] at htext
    obtain ⟨rfl, rfl⟩ := htext
    obtain ⟨htake, hdrop⟩ := takeWhile_append htail hends
    rw [htake]
    exact ⟨hd, rfl, hdrop⟩
  · rintro ⟨hc, rfl, rfl⟩
    obtain ⟨hdigits, hends, hsplit⟩ := takeWhile_spec Char.isDigit more
    exact ⟨by rw [List.cons_append, hsplit], positive_cons_iff.2 ⟨hc, hdigits⟩, hends⟩

/-- An integer whose first digit is not zero is read to its last digit, if it fits into 64 bits. -/
theorem integer_eq_ok_iff_of_positive {n : Int64} {negative : Bool} {c : Char} {more : List Char}
    (hsign : spanSign text = (negative, c :: more)) (hc : '1' ≤ c ∧ c ≤ '9') :
    integer text = .ok (n, rest) ↔ ∃ digits, c :: more = digits ++ rest ∧ Positive digits ∧
      (∀ d ∈ rest.head?, d.isDigit = false) ∧ n.toInt = signed negative (digitsValue digits) := by
  unfold integer
  rw [hsign]
  dsimp only [spanDigits]
  rw [if_pos hc]
  constructor
  · intro h
    split at h
    · rename_i found hfound
      obtain ⟨rfl, hrest⟩ := Prod.mk.inj (Except.ok.inj h)
      obtain ⟨htext, hdigits, hends⟩ := positive_append_iff.2 ⟨hc, rfl, hrest⟩
      exact ⟨_, htext, hdigits, hends, toInt64?_eq_some_iff.1 hfound⟩
    · cases h
  · rintro ⟨digits, htext, hdigits, hends, hn⟩
    obtain ⟨-, rfl, rfl⟩ := positive_append_iff.1 ⟨htext, hdigits, hends⟩
    rw [toInt64?_eq_some_iff.2 hn]

/-- Where no other digit starts an integer, only a zero without a sign is left to read. -/
theorem integer_eq_ok_iff_of_not_positive {n : Int64} {negative : Bool} {unsigned : List Char}
    (hsign : spanSign text = (negative, unsigned))
    (hnot : ∀ c ∈ unsigned.head?, ¬('1' ≤ c ∧ c ≤ '9')) :
    integer text = .ok (n, rest) ↔ text = '0' :: rest ∧ n = 0 := by
  have hzero (after : List Char) (h : text = '0' :: after) : unsigned = '0' :: after := by
    rw [h] at hsign
    exact (Prod.mk.inj hsign).2.symm
  unfold integer
  rw [hsign]
  cases unsigned with
  | nil =>
    simp only [reduceCtorEq, false_iff]
    rintro ⟨htext, -⟩
    cases hzero rest htext
  | cons c more =>
    dsimp only
    rw [if_neg (hnot c rfl)]
    split
    · rename_i hhead
      obtain ⟨after, htext⟩ := List.head?_eq_some_iff.1 hhead
      obtain ⟨rfl, rfl⟩ := List.cons.inj (hzero after htext)
      rw [htext, Except.ok.injEq, Prod.mk.injEq, List.cons.injEq]
      tauto
    · rename_i hhead
      simp only [reduceCtorEq, false_iff]
      rintro ⟨rfl, -⟩
      exact hhead rfl

/-- A sign is all that may stand before the digits of an integer. -/
theorem integer_eq_ok_iff {n : Int64} :
    integer text = .ok (n, rest) ↔
      (∃ negative digits, spanSign text = (negative, digits ++ rest) ∧ Positive digits ∧
        (∀ c ∈ rest.head?, c.isDigit = false) ∧
          n.toInt = signed negative (digitsValue digits)) ∨
        text = '0' :: rest ∧ n = 0 := by
  obtain ⟨⟨negative, unsigned⟩, hsign⟩ : ∃ parts, spanSign text = parts := ⟨_, rfl⟩
  by_cases hpositive : ∃ c ∈ unsigned.head?, '1' ≤ c ∧ c ≤ '9'
  · obtain ⟨c, hhead, hc⟩ := hpositive
    obtain ⟨more, rfl⟩ := List.head?_eq_some_iff.1 hhead
    have hnot : ¬(text = '0' :: rest ∧ n = 0) := by
      rintro ⟨rfl, -⟩
      obtain rfl : '0' = c := (List.cons.inj (Prod.mk.inj hsign).2).1
      exact absurd hc.1 (by decide)
    rw [integer_eq_ok_iff_of_positive hsign hc, or_iff_left hnot, hsign]
    simp only [Prod.mk.injEq, exists_and_left, exists_eq_left', and_assoc]
  · have hnot : ∀ c ∈ unsigned.head?, ¬('1' ≤ c ∧ c ≤ '9') := fun c hhead hc =>
      hpositive ⟨c, hhead, hc⟩
    rw [integer_eq_ok_iff_of_not_positive hsign hnot]
    refine (or_iff_right ?_).symm
    rintro ⟨_, digits, hparts, hdigits, -⟩
    obtain ⟨c, more, rfl, hc, -⟩ := hdigits.exists_cons
    have hunsigned : unsigned = c :: (more ++ rest) := (Prod.mk.inj (hsign.symm.trans hparts)).2
    exact hnot c (by rw [hunsigned]; rfl) hc

/-- What is read as an integer has the form of one. -/
private theorem sound_integer : Sound integer IntegerForm := by
  intro text rest n h
  rcases integer_eq_ok_iff.1 h with ⟨negative, digits, hsign, hdigits, -, hn⟩ | ⟨rfl, rfl⟩
  · unfold spanSign at hsign
    split at hsign
    · obtain ⟨rfl, rfl⟩ := Prod.mk.inj hsign
      exact .minus hdigits hn
    · obtain ⟨rfl, rfl⟩ := Prod.mk.inj hsign
      exact .plus hdigits hn
    · obtain ⟨rfl, rfl⟩ := Prod.mk.inj hsign
      exact .unsigned hdigits hn
  · exact .zero rest

/-- An integer is read to its last digit. -/
theorem integer_eq_ok {n : Int64} (h : IntegerForm text rest n)
    (hends : ∀ c ∈ rest.head?, c.isDigit = false) : integer text = .ok (n, rest) := by
  refine integer_eq_ok_iff.2 ?_
  cases h with
  | zero => exact .inr ⟨rfl, rfl⟩
  | @unsigned digits rest n hdigits hn =>
    refine .inl ⟨false, digits, ?_, hdigits, hends, hn⟩
    obtain ⟨c, more, rfl, hc, -⟩ := hdigits.exists_cons
    -- the first digit is no sign
    unfold spanSign
    split
    · rename_i htext
      obtain ⟨rfl, -⟩ := List.cons.inj htext
      exact absurd hc.1 (by decide)
    · rename_i htext
      obtain ⟨rfl, -⟩ := List.cons.inj htext
      exact absurd hc.1 (by decide)
    · rfl
  | plus hdigits hn => exact .inl ⟨false, _, rfl, hdigits, hends, hn⟩
  | minus hdigits hn => exact .inl ⟨true, _, rfl, hdigits, hends, hn⟩

end Numbers

section Kinds

/-- Digits end where no further one follows. -/
theorem digits_unique {digits others after following : List Char}
    (hdigits : ∀ c ∈ digits, c.isDigit = true) (hothers : ∀ c ∈ others, c.isDigit = true)
    (hafter : ∀ c ∈ after.head?, c.isDigit = false)
    (hfollowing : ∀ c ∈ following.head?, c.isDigit = false)
    (h : digits ++ after = others ++ following) : digits = others ∧ after = following := by
  obtain ⟨htake, hdrop⟩ := takeWhile_append hdigits hafter
  obtain ⟨htake', hdrop'⟩ := takeWhile_append hothers hfollowing
  rw [h] at htake hdrop
  exact ⟨htake.symm.trans htake', hdrop.symm.trans hdrop'⟩

/-- Nothing follows that would continue a number. -/
def NumberEnds (rest : List Char) : Prop :=
  ∀ c ∈ rest.head?, c.isDigit = false ∧ c ≠ '.' ∧ c ≠ '-'

/-- Numbers and dates start with a digit or a sign. -/
def NumberStarts (text : List Char) : Prop :=
  ∃ c ∈ text.head?, c.isDigit = true ∨ c = '+' ∨ c = '-'

/-- A date starts with the digits of its year. -/
private theorem DateForm.exists_year {date : Date} (h : DateForm text rest date) :
    ∃ year after, Numeral year ∧ text = year ++ '-' :: after := by
  obtain ⟨⟨hlength, hdigits⟩, -⟩ := h
  refine ⟨_, _, ⟨?_, hdigits⟩, rfl⟩
  rintro rfl
  cases hlength

/-- A decimal has a point after its first digits. -/
theorem DecimalForm.exists_whole {x : Binary64} (h : DecimalForm text rest x) :
    ∃ whole after, Numeral whole ∧
      (text = whole ++ '.' :: after ∨ text = '-' :: (whole ++ '.' :: after)) := by
  cases h with
  | unsigned hwhole => exact ⟨_, _, hwhole, .inl rfl⟩
  | minus hwhole => exact ⟨_, _, hwhole, .inr rfl⟩

/-- An integer is made of digits, with a sign before them or none. -/
private theorem IntegerForm.exists_digits {n : Int64} (h : IntegerForm text rest n) :
    ∃ digits, Numeral digits ∧ (text = digits ++ rest ∨ text = '+' :: (digits ++ rest) ∨
      text = '-' :: (digits ++ rest)) := by
  cases h with
  | zero => exact ⟨['0'], ⟨by decide, List.forall_mem_singleton.2 rfl⟩, .inl rfl⟩
  | unsigned hdigits => exact ⟨_, hdigits.toNumeral, .inl rfl⟩
  | plus hdigits => exact ⟨_, hdigits.toNumeral, .inr (.inl rfl)⟩
  | minus hdigits => exact ⟨_, hdigits.toNumeral, .inr (.inr rfl)⟩

/-- A numeral starts as a number does. -/
private theorem Numeral.numberStarts {digits : List Char} (h : Numeral digits) (rest : List Char) :
    NumberStarts (digits ++ rest) := by
  obtain ⟨c, hc, hdigit⟩ := h.exists_head rest
  exact ⟨c, hc, .inl hdigit⟩

/-- A day starts as a number does. -/
theorem DateForm.numberStarts {date : Date} (h : DateForm text rest date) : NumberStarts text := by
  obtain ⟨year, after, hyear, rfl⟩ := h.exists_year
  exact hyear.numberStarts _

/-- A decimal starts as a number does. -/
private theorem DecimalForm.numberStarts {x : Binary64} (h : DecimalForm text rest x) :
    NumberStarts text := by
  obtain ⟨whole, after, hwhole, rfl | rfl⟩ := h.exists_whole
  · exact hwhole.numberStarts _
  · exact ⟨'-', rfl, .inr (.inr rfl)⟩

/-- An integer starts as a number does. -/
private theorem IntegerForm.numberStarts {n : Int64} (h : IntegerForm text rest n) :
    NumberStarts text := by
  obtain ⟨digits, hdigits, rfl | rfl | rfl⟩ := h.exists_digits
  · exact hdigits.numberStarts _
  · exact ⟨'+', rfl, .inr (.inl rfl)⟩
  · exact ⟨'-', rfl, .inr (.inr rfl)⟩

/-- Only a quote starts a quoted text. -/
theorem refuses_quoted (h : '"' ∉ text.head?) : Refuses quoted text := by
  refine mild_quoted.refuses ?_
  rintro ⟨found, rest⟩ hread
  obtain ⟨-⟩ := quoted_eq_ok_iff.1 hread
  exact h rfl

/-- A keyword is refused where the first character is not its own. -/
theorem refuses_keyword {word : String} {c : Char} (hword : c ∈ word.toList.head?)
    (h : c ∉ text.head?) : Refuses (keyword word) text := by
  refine (mild_keyword word).refuses fun result hread => h ?_
  rw [(keyword_eq_ok_iff.1 hread).head? (by rintro hnil; rw [hnil] at hword; cases hword)]
  exact hword

/-- A text that starts with a number starts with no quote and no letter. -/
theorem NumberStarts.not_head (h : NumberStarts text) {c : Char}
    (hc : c.isDigit = false ∧ c ≠ '+' ∧ c ≠ '-') : c ∉ text.head? := by
  obtain ⟨d, hd, hnumber⟩ := h
  intro hhead
  obtain rfl : d = c := Option.some.inj (hd.symm.trans hhead)
  obtain ⟨hdigit, hplus, hminus⟩ := hc
  rcases hnumber with hnumber | hnumber | hnumber
  · rw [hnumber] at hdigit
    cases hdigit
  · exact hplus hnumber
  · exact hminus hnumber

/-- Only after its first digits a date goes on with a hyphen. -/
theorem refuses_date {digits : List Char} (hdigits : ∀ c ∈ digits, c.isDigit = true)
    (hrest : ∀ c ∈ rest.head?, c.isDigit = false) (h : digits = [] ∨ '-' ∉ rest.head?) :
    Refuses date (digits ++ rest) := by
  refine mild_date.refuses ?_
  rintro ⟨found, last⟩ hread
  obtain ⟨year, after, hyear, htext⟩ := (date_eq_ok_iff.1 hread).exists_year
  obtain ⟨rfl, rfl⟩ := digits_unique hdigits hyear.isDigit hrest (by rintro _ ⟨⟩; rfl) htext
  rcases h with rfl | h
  · exact hyear.ne_nil rfl
  · exact h rfl

/-- No date is read where no digit comes first. -/
private theorem refuses_date_of_head {c : Char} (hhead : text.head? = some c)
    (hc : c.isDigit = false) :
    Refuses date text := by
  have hrest : ∀ d ∈ text.head?, d.isDigit = false := by
    rw [hhead]
    rintro _ ⟨⟩
    exact hc
  exact refuses_date (List.forall_mem_nil _) hrest (.inl rfl)

/-- A number does not go on where it ends. -/
private theorem NumberEnds.not_digit (h : NumberEnds rest) : ∀ c ∈ rest.head?, c.isDigit = false :=
  fun c hc => (h c hc).1

/-- What starts with a sign is no digits and something after them. -/
theorem Numeral.ne_cons {digits after following : List Char} (h : Numeral digits) {c : Char}
    (hc : c.isDigit = false) : c :: following ≠ digits ++ after := by
  intro htext
  obtain ⟨d, hd, hdigit⟩ := h.exists_head after
  rw [← htext] at hd
  obtain rfl := Option.some.inj hd
  rw [hc] at hdigit
  cases hdigit

/-- A numeral at whose end no point follows is not the whole part of a decimal. -/
private theorem Numeral.ne_point {digits whole after : List Char} (h : Numeral digits)
    (hwhole : Numeral whole) (hends : NumberEnds rest) :
    digits ++ rest ≠ whole ++ '.' :: after := by
  intro htext
  obtain ⟨-, rfl⟩ := digits_unique h.isDigit hwhole.isDigit hends.not_digit
    (by rintro _ ⟨⟩; rfl) htext
  exact (hends '.' rfl).2.1 rfl

/-- An integer with nothing behind it is no date. -/
theorem IntegerForm.refuses_date {n : Int64} (h : IntegerForm text rest n)
    (hends : NumberEnds rest) : Refuses date text := by
  obtain ⟨digits, hdigits, rfl | rfl | rfl⟩ := h.exists_digits
  · exact RuleText.refuses_date hdigits.isDigit hends.not_digit
      (.inr fun hhead => (hends '-' hhead).2.2 rfl)
  · exact refuses_date_of_head rfl rfl
  · exact refuses_date_of_head rfl rfl

/-- An integer with nothing behind it is no decimal. -/
theorem IntegerForm.refuses_decimal {n : Int64} (h : IntegerForm text rest n)
    (hends : NumberEnds rest) : Refuses decimal text := by
  refine mild_decimal.refuses ?_
  rintro ⟨found, last⟩ hread
  obtain ⟨whole, after, hwhole, htext⟩ := (sound_decimal _ _ _ hread).exists_whole
  obtain ⟨digits, hdigits, rfl | rfl | rfl⟩ := h.exists_digits
  · rcases htext with htext | htext
    · exact hdigits.ne_point hwhole hends htext
    · exact hdigits.ne_cons rfl htext.symm
  · rcases htext with htext | htext
    · exact hwhole.ne_cons rfl htext
    · cases (List.cons.inj htext).1
  · rcases htext with htext | htext
    · exact hwhole.ne_cons rfl htext
    · exact hdigits.ne_point hwhole hends (List.cons.inj htext).2

/-- A decimal is no date: its point comes where that has a hyphen. -/
theorem DecimalForm.refuses_date {x : Binary64} (h : DecimalForm text rest x) :
    Refuses date text := by
  obtain ⟨whole, after, hwhole, rfl | rfl⟩ := h.exists_whole
  · exact RuleText.refuses_date hwhole.isDigit (by rintro _ ⟨⟩; rfl) (.inr (by rintro ⟨⟩))
  · exact refuses_date_of_head rfl rfl

end Kinds

section Values

variable {found : Value}

/-- What is read as a value has the form of one. -/
theorem sound_value : Sound value (Spaced ValueForm) := by
  refine Sound.spaced fun text rest found h => ?_
  simp only [labelled_eq_ok_iff, choice_cons_eq_ok_iff, choice_singleton, steps_eq_ok_iff,
    pure_eq_ok_iff, Prod.mk.injEq] at h
  rcases h with ⟨s, _, hs, rfl, rfl⟩ | ⟨-, ⟨d, _, hd, rfl, rfl⟩ | ⟨-, ⟨_, _, htrue, rfl, rfl⟩ |
    ⟨-, ⟨_, _, hfalse, rfl, rfl⟩ | ⟨-, ⟨x, _, hx, rfl, rfl⟩ | ⟨-, n, _, hn, rfl, rfl⟩⟩⟩⟩⟩
  · exact .text (quoted_eq_ok_iff.1 hs)
  · exact .date (date_eq_ok_iff.1 hd)
  · exact .true (keyword_eq_ok_iff.1 htrue)
  · exact .false (keyword_eq_ok_iff.1 hfalse)
  · exact .decimal (sound_decimal _ _ _ hx)
  · exact .int (sound_integer _ _ _ hn)

/-- Where a number starts, neither a quoted text nor a flag does. -/
private theorem NumberStarts.refuses_words (h : NumberStarts text) :
    Refuses quoted text ∧ Refuses (keyword "true") text ∧ Refuses (keyword "false") text :=
  ⟨refuses_quoted (h.not_head (by decide)),
    refuses_keyword (c := 't') rfl (h.not_head (by decide)),
    refuses_keyword (c := 'f') rfl (h.not_head (by decide))⟩

/-- A number starts with no layout. -/
theorem NumberStarts.bare (h : NumberStarts text) : Bare text := by
  obtain ⟨c, hc, hnumber⟩ := h
  refine bare_of_head hc ?_
  rcases hnumber with hdigit | rfl | rfl
  · exact isMark_of_isDigit hdigit
  · decide
  · decide

/-- A value starts with a quote, a number, or the first letter of `true` or `false`. -/
theorem ValueForm.starts (h : ValueForm text rest found) :
    NumberStarts text ∨ ∃ c ∈ text.head?, c ∈ ['"', 't', 'f'] := by
  cases h with
  | text h =>
    obtain ⟨-⟩ := h
    exact .inr ⟨'"', rfl, by decide⟩
  | date h => exact .inl h.numberStarts
  | true h => exact .inr ⟨'t', h.head? (by decide), by decide⟩
  | false h => exact .inr ⟨'f', h.head? (by decide), by decide⟩
  | decimal h => exact .inl h.numberStarts
  | int h => exact .inl h.numberStarts

/-- A value starts with no layout. -/
theorem ValueForm.bare (h : ValueForm text rest found) : Bare text := by
  rcases h.starts with hnumber | ⟨c, hc, hmem⟩
  · exact hnumber.bare
  · have hmarks : ['"', 't', 'f'].all isMark := by decide
    exact bare_of_head hc (List.all_eq_true.1 hmarks c hmem)

/-- The rest of a quoted text takes its closing quote at least. -/
private theorem QuotedRest.length_lt {found : List Char} (h : QuotedRest text rest found) :
    rest.length < text.length := by
  induction h with
  | close rest => exact Nat.lt_succ_self _
  | escape c hfound ih =>
    simp only [List.length_cons]
    omega
  | plain _ _ hfound ih => exact Nat.lt_succ_of_lt ih

/-- A numeral has a digit at least. -/
private theorem Numeral.length_pos {digits : List Char} (h : Numeral digits) : 0 < digits.length :=
  List.length_pos_iff.2 h.ne_nil

/-- A value takes something from the text. -/
theorem ValueForm.length_lt (h : ValueForm text rest found) : rest.length < text.length := by
  cases h with
  | text h =>
    obtain ⟨h⟩ := h
    exact Nat.lt_succ_of_lt h.length_lt
  | date h =>
    obtain ⟨hyear, -, -⟩ := h
    simp only [List.length_append, List.length_cons, hyear.length_eq]
    omega
  | true h => exact h.length_lt (by decide)
  | false h => exact h.length_lt (by decide)
  | decimal h =>
    cases h with
    | unsigned hwhole =>
      have hpos := hwhole.length_pos
      simp only [List.length_append, List.length_cons]
      omega
    | minus hwhole =>
      simp only [List.length_append, List.length_cons]
      omega
  | int h =>
    obtain ⟨digits, hdigits, rfl | rfl | rfl⟩ := h.exists_digits
    · have hpos := hdigits.length_pos
      rw [List.length_append]
      omega
    · simp only [List.length_append, List.length_cons]
      omega
    · simp only [List.length_append, List.length_cons]
      omega

/-- A value is read where nothing follows that would continue a number. -/
theorem complete_value (bound : Nat) : Complete bound value (Spaced ValueForm) NumberEnds := by
  refine Complete.spaced ?_ fun _ _ _ h => h.bare
  intro text rest found _ h hends
  simp only [labelled_eq_ok_iff, choice_cons_eq_ok_iff, choice_singleton, steps_eq_ok_iff,
    pure_eq_ok_iff, Prod.mk.injEq]
  cases h with
  | text h => exact .inl ⟨_, _, quoted_eq_ok_iff.2 h, rfl, rfl⟩
  | date h =>
    obtain ⟨hquoted, -⟩ := h.numberStarts.refuses_words
    exact .inr ⟨hquoted.bind, .inl ⟨_, _, date_eq_ok_iff.2 h, rfl, rfl⟩⟩
  | true h =>
    have hhead : text.head? = some 't' := h.head? (by decide)
    have hquoted : Refuses quoted text := refuses_quoted (by rw [hhead]; decide)
    have hdate : Refuses date text := refuses_date_of_head hhead rfl
    exact .inr ⟨hquoted.bind, .inr ⟨hdate.bind, .inl ⟨(), _, keyword_eq_ok_iff.2 h, rfl, rfl⟩⟩⟩
  | false h =>
    have hhead : text.head? = some 'f' := h.head? (by decide)
    have hquoted : Refuses quoted text := refuses_quoted (by rw [hhead]; decide)
    have hdate : Refuses date text := refuses_date_of_head hhead rfl
    have htrue : Refuses (keyword "true") text :=
      refuses_keyword (c := 't') rfl (by rw [hhead]; decide)
    exact .inr ⟨hquoted.bind, .inr ⟨hdate.bind, .inr ⟨htrue.bind,
      .inl ⟨(), _, keyword_eq_ok_iff.2 h, rfl, rfl⟩⟩⟩⟩
  | decimal h =>
    obtain ⟨hquoted, htrue, hfalse⟩ := h.numberStarts.refuses_words
    exact .inr ⟨hquoted.bind, .inr ⟨h.refuses_date.bind, .inr ⟨htrue.bind, .inr ⟨hfalse.bind,
      .inl ⟨_, _, decimal_eq_ok h hends.not_digit, rfl, rfl⟩⟩⟩⟩⟩
  | int h =>
    obtain ⟨hquoted, htrue, hfalse⟩ := h.numberStarts.refuses_words
    exact .inr ⟨hquoted.bind, .inr ⟨(h.refuses_date hends).bind, .inr ⟨htrue.bind,
      .inr ⟨hfalse.bind, .inr ⟨(h.refuses_decimal hends).bind,
        _, _, integer_eq_ok h hends.not_digit, rfl, rfl⟩⟩⟩⟩⟩

end Values

end Bookkeeping.RuleText
