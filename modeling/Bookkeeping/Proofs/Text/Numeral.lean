import Bookkeeping.Proofs.Date.Text
import Bookkeeping.Proofs.RuleText.Grammar

/-!
# Integers as they are written

Digits are those of the number they write behind zeros, and a positive number has no leading zero.
An integer is written as digits with or without a sign in front. A text is read as a 64-bit integer
exactly if it writes it in this form, and the text that an integer is given is of this form.
-/

namespace Bookkeeping.Text

open RuleText (Numeral)

variable {text rest : List Char}

section Digits

variable {digits : List Char} {n : Nat}

private theorem numeral_natDigits (n : Nat) : Numeral (natDigits n) :=
  ⟨Nat.toDigits_ne_nil, fun _ => Nat.isDigit_of_mem_toDigits (by decide) (by decide)⟩

/-- A digit is the one digit of its value. -/
theorem natDigits_of_isDigit {c : Char} (hc : c.isDigit = true) :
    c.toNat - 48 < 10 ∧ natDigits (c.toNat - 48) = [c] := by
  have hrange := Date.toNat_of_isDigit hc
  refine ⟨by omega, ?_⟩
  rw [natDigits, Nat.toDigits_of_lt_base (by omega), List.cons.injEq, and_iff_left rfl,
    ← Char.toNat_inj, Nat.toNat_digitChar_of_lt_ten (by omega)]
  omega

/-- Further digits are put behind those of a positive number. -/
theorem natDigits_append (hn : 0 < n) (hdigits : ∀ c ∈ digits, c.isDigit = true) :
    natDigits n ++ digits = natDigits (Nat.ofDigitChars 10 digits n) := by
  induction digits generalizing n with
  | nil => exact List.append_nil _
  | cons c rest ih =>
    obtain ⟨hlt, hdigit⟩ := natDigits_of_isDigit (hdigits c List.mem_cons_self)
    calc
      natDigits n ++ c :: rest = (natDigits n ++ natDigits (c.toNat - 48)) ++ rest := by
        rw [hdigit, List.append_assoc, List.cons_append, List.nil_append]
      _ = natDigits (10 * n + (c.toNat - 48)) ++ rest := by
        rw [natDigits, natDigits, natDigits, Nat.toDigits_append_toDigits (by decide) hn hlt]
      _ = natDigits (Nat.ofDigitChars 10 (c :: rest) n) := by
        rw [ih (by omega) fun d hd => hdigits d (List.mem_cons_of_mem c hd), Nat.ofDigitChars_cons]
        rfl

/-- Digits are those of the number they write, behind zeros. -/
theorem exists_zeros (h : Numeral digits) :
    ∃ zeros, digits = List.replicate zeros '0' ++ natDigits (digitsValue digits) := by
  induction digits with
  | nil => exact absurd rfl h.ne_nil
  | cons c rest ih =>
    have hrest : ∀ d ∈ rest, d.isDigit = true := fun d hd => h.isDigit d (List.mem_cons_of_mem c hd)
    by_cases hzero : c = '0'
    · subst hzero
      by_cases hend : rest = []
      · subst hend
        exact ⟨0, rfl⟩
      · obtain ⟨zeros, hzeros⟩ := ih ⟨hend, hrest⟩
        refine ⟨zeros + 1, ?_⟩
        have hvalue : digitsValue ('0' :: rest) = digitsValue rest :=
          Date.digitsValue_replicate_zero 1 rest
        rw [hvalue, List.replicate_succ, List.cons_append, ← hzeros]
    · obtain ⟨-, hdigit⟩ := natDigits_of_isDigit (h.isDigit c List.mem_cons_self)
      have hpos : 0 < c.toNat - 48 := by
        have hne : c.toNat - 48 ≠ 0 := by
          intro hvalue
          rw [hvalue] at hdigit
          exact hzero (List.cons.inj hdigit).1.symm
        omega
      have hvalue : digitsValue (c :: rest) = Nat.ofDigitChars 10 rest (c.toNat - 48) := by
        rw [digitsValue, Nat.ofDigitChars_cons, Nat.mul_zero, Nat.zero_add]
        rfl
      refine ⟨0, ?_⟩
      rw [hvalue, ← natDigits_append hpos hrest, hdigit]
      rfl

/-- A positive number has no leading zero. -/
theorem head?_natDigits_ne (hn : n ≠ 0) : (natDigits n).head? ≠ some '0' := by
  intro hhead
  obtain ⟨rest, hrest⟩ := List.head?_eq_some_iff.1 hhead
  have hvalue : digitsValue rest = n := by
    have h := digitsValue_natDigits n
    rw [hrest] at h
    exact (Date.digitsValue_replicate_zero 1 rest).symm.trans h
  by_cases hend : rest = []
  · subst hend
    exact hn hvalue.symm
  · -- what follows the zero would hold all the digits of the number again
    have hdigits : ∀ c ∈ rest, c.isDigit = true := fun c hc =>
      (numeral_natDigits n).isDigit c (hrest ▸ List.mem_cons_of_mem _ hc)
    obtain ⟨zeros, hzeros⟩ := exists_zeros ⟨hend, hdigits⟩
    have hlength := congrArg List.length hzeros
    rw [hvalue, hrest, List.length_append, List.length_replicate, List.length_cons] at hlength
    omega

end Digits

section Signs

/-- A sign, which may be left out. -/
inductive SignForm : List Char → Bool → Prop
  | none : SignForm [] false
  | plus : SignForm ['+'] false
  | minus : SignForm ['-'] true

/-- The text does not go on with a sign. -/
def Unsigned (text : List Char) : Prop :=
  ∀ c ∈ text.head?, c ≠ '-' ∧ c ≠ '+'

private theorem unsigned_of_isDigit (h : ∀ c ∈ text.head?, c.isDigit = true) : Unsigned text :=
  fun c hc => (Date.not_blank_of_isDigit (h c hc)).2

/-- The sign before an unsigned text is taken off. -/
theorem SignForm.spanSign_eq {sign : List Char} {negative : Bool} (h : SignForm sign negative)
    (hrest : Unsigned rest) : spanSign (sign ++ rest) = (negative, rest) := by
  cases h with
  | none =>
    rw [List.nil_append]
    unfold spanSign
    split
    · exact absurd rfl (hrest '-' rfl).1
    · exact absurd rfl (hrest '+' rfl).2
    · rfl
  | plus => rfl
  | minus => rfl

/-- Every text is a sign and what follows. -/
theorem exists_signForm (text : List Char) :
    ∃ sign, SignForm sign (spanSign text).1 ∧ text = sign ++ (spanSign text).2 := by
  unfold spanSign
  split
  · exact ⟨_, .minus, rfl⟩
  · exact ⟨_, .plus, rfl⟩
  · exact ⟨_, .none, rfl⟩

end Signs

section Integers

/-- Digits with a sign or without. -/
inductive IntegerForm : List Char → Int → Prop
  | mk {sign digits : List Char} {negative : Bool} (hsign : SignForm sign negative)
      (hdigits : Numeral digits) :
      IntegerForm (sign ++ digits) (signed negative (digitsValue digits))

/-- A run of digits starts with no sign. -/
theorem unsigned_digits {digits : List Char} (h : ∀ c ∈ digits, c.isDigit = true) :
    Unsigned digits :=
  unsigned_of_isDigit fun c hc => h c (List.mem_of_mem_head? hc)

/-- An integer is written by a text of which only digits are left behind the sign. -/
theorem integerForm_iff {z : Int} : IntegerForm text z ↔
    Numeral (spanSign text).2 ∧ z = signed (spanSign text).1 (digitsValue (spanSign text).2) := by
  constructor
  · rintro ⟨hsign, hdigits⟩
    rw [hsign.spanSign_eq (unsigned_digits hdigits.isDigit)]
    exact ⟨hdigits, rfl⟩
  · rintro ⟨hdigits, rfl⟩
    obtain ⟨sign, hsign, htext⟩ := exists_signForm text
    have hform := IntegerForm.mk hsign hdigits
    rwa [← htext] at hform

/-- A numeral is the form of at most one integer. -/
theorem IntegerForm.unique {z z' : Int} (h : IntegerForm text z) (h' : IntegerForm text z') :
    z = z' :=
  (integerForm_iff.1 h).2.trans (integerForm_iff.1 h').2.symm

/-- The check that readers make of digits. -/
theorem numeral_iff {digits : List Char} :
    (digits.isEmpty || !digits.all Char.isDigit) = false ↔ Numeral digits := by
  rw [Bool.or_eq_false_iff, List.isEmpty_eq_false_iff, Bool.not_eq_false', List.all_eq_true]
  exact ⟨fun h => ⟨h.1, h.2⟩, fun h => ⟨h.ne_nil, h.isDigit⟩⟩

/-- A text is read as a 64-bit integer if it writes it. -/
theorem readInt64?_eq_some_iff {n : Int64} :
    readInt64? text = some n ↔ IntegerForm text n.toInt := by
  rw [integerForm_iff, ← numeral_iff, readInt64?]
  by_cases hdigits : ((spanSign text).2.isEmpty || !(spanSign text).2.all Char.isDigit) = true
  · simp [hdigits]
  · simp only [hdigits, Bool.false_eq_true, if_false, toInt64?_eq_some_iff, true_and]

/-- The text of an integer writes it. -/
theorem integerForm_intText (z : Int) : IntegerForm (intText z).toList z := by
  unfold intText natText
  split
  · rename_i hneg
    have hform := IntegerForm.mk .minus (numeral_natDigits z.natAbs)
    rw [digitsValue_natDigits, signed, if_pos rfl,
      show -(z.natAbs : Int) = z by omega] at hform
    simp only [String.toList_append, String.toList_ofList]
    exact hform
  · rename_i hnonneg
    have hform := IntegerForm.mk .none (numeral_natDigits z.natAbs)
    rw [digitsValue_natDigits, signed, if_neg Bool.false_ne_true,
      show (z.natAbs : Int) = z by omega] at hform
    rwa [String.toList_ofList]

/-- A text without blanks has none at its ends. -/
theorem trim_of_forall (h : ∀ c ∈ text, isBlank c = false) : trim text = text := by
  have hskip {text : List Char} (h : ∀ c ∈ text, isBlank c = false) : skipBlanks text = text := by
    cases text with
    | nil => rfl
    | cons c rest => exact Date.skipBlanks_cons (h c List.mem_cons_self)
  rw [trim, hskip h, hskip fun c hc => h c (List.mem_reverse.1 hc), List.reverse_reverse]

/-- Nothing of what writes an integer is blank. -/
theorem IntegerForm.trim_eq {z : Int} (h : IntegerForm text z) : trim text = text := by
  obtain ⟨hsign, -, hdigits⟩ := h
  refine trim_of_forall fun c hc => ?_
  rcases List.mem_append.1 hc with hmem | hdigit
  · cases hsign with
    | none => cases hmem
    | plus =>
      rw [List.mem_singleton.1 hmem]
      decide
    | minus =>
      rw [List.mem_singleton.1 hmem]
      decide
  · exact (Date.not_blank_of_isDigit (hdigits c hdigit)).1

end Integers

end Bookkeeping.Text
