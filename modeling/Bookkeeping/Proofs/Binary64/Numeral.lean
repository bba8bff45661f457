import Bookkeeping.Binary64.Numeral
import Bookkeeping.Proofs.Binary64.Rounds
import Bookkeeping.Proofs.RuleText.Reader
import Bookkeeping.Proofs.Text.Numeral

/-!
# Numerals as they are written

Which rational number a text writes: a sign, digits with or without a point, an exponent. A text
writes at most one number, and reading it rounds that number.
-/

namespace Bookkeeping.Binary64

open Bookkeeping.Text
open RuleText (Numeral)

/-- An exponent, which may be left out. -/
inductive ExponentForm : List Char → Int → Prop
  | none : ExponentForm [] 0
  | some {mark : Char} {text : List Char} {exponent : Int} (hmark : mark = 'e' ∨ mark = 'E')
      (h : IntegerForm text exponent) : ExponentForm (mark :: text) exponent

/-- Digits and an exponent of ten. With a point the digits before it or behind it may be left out,
but not both; those behind it count for the exponent. -/
inductive MagnitudeForm : List Char → Nat → Int → Prop
  | whole {digits tail : List Char} {exponent : Int} (hdigits : Numeral digits)
      (hexponent : ExponentForm tail exponent) :
      MagnitudeForm (digits ++ tail) (digitsValue digits) exponent
  | point {whole fraction tail : List Char} {exponent : Int} (hdigits : Numeral (whole ++ fraction))
      (hexponent : ExponentForm tail exponent) :
      MagnitudeForm (whole ++ '.' :: (fraction ++ tail)) (digitsValue (whole ++ fraction))
        (exponent - fraction.length)

/-- A numeral. -/
inductive NumeralForm : List Char → Bool → Nat → Int → Prop
  | mk {sign text : List Char} {negative : Bool} {digits : Nat} {exponent : Int}
      (hsign : SignForm sign negative) (h : MagnitudeForm text digits exponent) :
      NumeralForm (sign ++ text) negative digits exponent

variable {text : List Char} {negative : Bool} {digits : Nat} {exponent : Int}

section Reading

private theorem readExponent?_eq_some_iff :
    readExponent? text = some exponent ↔ ExponentForm text exponent := by
  cases text with
  | nil =>
    rw [readExponent?, Option.some.injEq]
    exact ⟨fun h => h ▸ .none, fun h => by cases h; rfl⟩
  | cons mark rest =>
    have hform : ExponentForm (mark :: rest) exponent ↔
        (mark = 'e' ∨ mark = 'E') ∧ IntegerForm rest exponent :=
      ⟨fun h => by cases h with | some hmark h => exact ⟨hmark, h⟩, fun h => .some h.1 h.2⟩
    rw [hform, integerForm_iff, ← numeral_iff, readExponent?]
    by_cases hmark : mark = 'e' ∨ mark = 'E'
    · by_cases hdigits : ((spanSign rest).2.isEmpty || !(spanSign rest).2.all Char.isDigit) = true
      · simp [hmark, hdigits]
      · simp only [hmark, hdigits, if_true, Bool.false_eq_true, if_false, Option.some.injEq,
        true_and]
        exact eq_comm
    · simp [hmark]

private theorem ExponentForm.unique {other : Int} (h : ExponentForm text exponent)
    (h' : ExponentForm text other) : exponent = other :=
  Option.some.inj ((readExponent?_eq_some_iff.2 h).symm.trans (readExponent?_eq_some_iff.2 h'))

/-- An exponent starts with its mark. -/
theorem ExponentForm.head (h : ExponentForm text exponent) :
    ∀ c ∈ text.head?, c.isDigit = false ∧ c ≠ '.' := by
  cases h with
  | none => rintro _ ⟨⟩
  | some hmark =>
    rintro _ ⟨⟩
    rcases hmark with rfl | rfl <;> decide

/-- The digits that a text starts with, where no further ones follow. -/
theorem spanDigits_append {digits rest : List Char} (hdigits : ∀ c ∈ digits, c.isDigit = true)
    (hrest : ∀ c ∈ rest.head?, c.isDigit = false) :
    spanDigits (digits ++ rest) = (digits, rest) := by
  obtain ⟨htake, hdrop⟩ := RuleText.Reader.takeWhile_append hdigits hrest
  rw [spanDigits, htake, hdrop]

variable {whole fraction tail : List Char}

/-- Digits with a point are read with the exponent behind them. -/
theorem readMagnitude?_point (hwhole : ∀ c ∈ whole, c.isDigit = true)
    (hfraction : ∀ c ∈ fraction, c.isDigit = true) (htail : ∀ c ∈ tail.head?, c.isDigit = false) :
    readMagnitude? negative (whole ++ '.' :: (fraction ++ tail)) =
      if whole ++ fraction = [] then none
      else (readExponent? tail).map fun exponent =>
        ofDecimal negative (digitsValue (whole ++ fraction)) (exponent - fraction.length) := by
  have hpoint : ∀ c ∈ ('.' :: (fraction ++ tail)).head?, c.isDigit = false := by
    rintro _ ⟨⟩
    rfl
  simp only [readMagnitude?, spanDigits_append hwhole hpoint, spanDigits_append hfraction htail]
  by_cases hne : whole ++ fraction = []
  · obtain ⟨rfl, rfl⟩ := List.append_eq_nil_iff.1 hne
    rfl
  · have hempty : (whole.isEmpty && fraction.isEmpty) = false := by
      rw [Bool.eq_false_iff, ne_eq, Bool.and_eq_true, List.isEmpty_iff, List.isEmpty_iff,
        ← List.append_eq_nil_iff]
      exact hne
    simp only [hempty, Bool.false_eq_true, if_false, if_neg hne, Option.bind_eq_bind]
    cases readExponent? tail <;> rfl

/-- Digits without a point are read with the exponent behind them. -/
theorem readMagnitude?_whole (hwhole : ∀ c ∈ whole, c.isDigit = true)
    (htail : ∀ c ∈ tail.head?, c.isDigit = false ∧ c ≠ '.') :
    readMagnitude? negative (whole ++ tail) =
      if whole = [] then none
      else (readExponent? tail).map fun exponent =>
        ofDecimal negative (digitsValue whole) exponent := by
  rw [readMagnitude?, spanDigits_append hwhole fun c hc => (htail c hc).1]
  dsimp only
  split
  · rename_i htail
    exact absurd rfl (htail '.' rfl).2
  · by_cases hne : whole = []
    · subst hne
      rfl
    · simp only [List.isEmpty_eq_false_iff.2 hne, Bool.false_and, Bool.false_eq_true, if_false,
        if_neg hne, Option.bind_eq_bind, List.append_nil]
      cases readExponent? tail <;> simp

/-- A text is read as a magnitude only if it writes one. -/
theorem exists_magnitudeForm {x : Binary64} (h : readMagnitude? negative text = some x) :
    ∃ digits exponent, MagnitudeForm text digits exponent ∧
      x = ofDecimal negative digits exponent := by
  obtain ⟨hwhole, hrest, htext⟩ := RuleText.Reader.takeWhile_spec Char.isDigit text
  generalize text.takeWhile Char.isDigit = whole at *
  generalize text.dropWhile Char.isDigit = rest at *
  subst htext
  by_cases hpoint : ∃ behind, rest = '.' :: behind
  · obtain ⟨behind, rfl⟩ := hpoint
    obtain ⟨hfraction, htail, hbehind⟩ := RuleText.Reader.takeWhile_spec Char.isDigit behind
    generalize behind.takeWhile Char.isDigit = fraction at *
    generalize behind.dropWhile Char.isDigit = tail at *
    subst hbehind
    rw [readMagnitude?_point hwhole hfraction htail] at h
    split at h
    · cases h
    · rename_i hne
      obtain ⟨exponent, hexponent, rfl⟩ := Option.map_eq_some_iff.1 h
      have hdigits : Numeral (whole ++ fraction) :=
        ⟨hne, fun c hc => (List.mem_append.1 hc).elim (hwhole c) (hfraction c)⟩
      exact ⟨_, _, .point hdigits (readExponent?_eq_some_iff.1 hexponent), rfl⟩
  · have htail : ∀ c ∈ rest.head?, c.isDigit = false ∧ c ≠ '.' := by
      refine fun c hc => ⟨hrest c hc, ?_⟩
      rintro rfl
      exact hpoint ⟨rest.tail, (List.cons_head?_tail hc).symm⟩
    rw [readMagnitude?_whole hwhole htail] at h
    split at h
    · cases h
    · rename_i hne
      obtain ⟨exponent, hexponent, rfl⟩ := Option.map_eq_some_iff.1 h
      exact ⟨_, _, .whole ⟨hne, hwhole⟩ (readExponent?_eq_some_iff.1 hexponent), rfl⟩

/-- What writes a magnitude is read as it. -/
theorem MagnitudeForm.readMagnitude?_eq (h : MagnitudeForm text digits exponent) :
    readMagnitude? negative text = some (ofDecimal negative digits exponent) := by
  cases h with
  | whole hdigits hexponent =>
    rw [readMagnitude?_whole hdigits.isDigit hexponent.head, if_neg hdigits.ne_nil,
      readExponent?_eq_some_iff.2 hexponent, Option.map_some]
  | point hdigits hexponent =>
    rw [readMagnitude?_point (fun c hc => hdigits.isDigit c (List.mem_append_left _ hc))
      (fun c hc => hdigits.isDigit c (List.mem_append_right _ hc))
      fun c hc => (hexponent.head c hc).1, if_neg hdigits.ne_nil,
      readExponent?_eq_some_iff.2 hexponent, Option.map_some]

/-- What writes a magnitude starts with a digit or with the point. -/
theorem MagnitudeForm.head (h : MagnitudeForm text digits exponent) :
    ∃ c rest, text = c :: rest ∧ (c.isDigit = true ∨ c = '.') := by
  cases h with
  | @whole digits _ _ hdigits _ =>
    obtain ⟨c, more, rfl⟩ := List.exists_cons_of_ne_nil hdigits.ne_nil
    exact ⟨c, _, rfl, .inl (hdigits.isDigit c List.mem_cons_self)⟩
  | @point whole _ _ _ hdigits _ =>
    cases whole with
    | nil => exact ⟨'.', _, rfl, .inr rfl⟩
    | cons c more => exact ⟨c, _, rfl, .inl (hdigits.isDigit c List.mem_cons_self)⟩

private theorem MagnitudeForm.unsigned (h : MagnitudeForm text digits exponent) :
    Unsigned text := by
  obtain ⟨c, rest, rfl, hc⟩ := h.head
  rintro _ ⟨⟩
  rcases hc with hdigit | rfl
  · exact (Date.not_blank_of_isDigit hdigit).2
  · decide

/-- What writes a magnitude is no name, as names start with another letter. -/
theorem MagnitudeForm.map_toLower_ne (h : MagnitudeForm text digits exponent) {c : Char}
    {name : List Char} (hname : c = 'i' ∨ c = 'n') : text.map Char.toLower ≠ c :: name := by
  obtain ⟨first, rest, rfl, hfirst⟩ := h.head
  intro heq
  obtain rfl := (List.cons.inj heq).1
  have hlower : first.toLower = first := by
    refine dif_neg ?_
    rcases hfirst with hdigit | rfl
    · have hrange := Date.toNat_of_isDigit hdigit
      rintro ⟨hupper, -⟩
      have hletter : 65 ≤ first.toNat := UInt32.le_iff_toNat_le.1 hupper
      omega
    · decide
  rw [hlower] at hname
  rcases hfirst with hdigit | rfl
  · rcases hname with rfl | rfl <;> cases hdigit
  · revert hname
    decide

end Reading

section Uniqueness

variable {whole fraction tail behind : List Char}

private theorem ExponentForm.spanDigits_append (hdigits : ∀ c ∈ whole, c.isDigit = true)
    (hexponent : ExponentForm tail exponent) : spanDigits (whole ++ tail) = (whole, tail) :=
  Binary64.spanDigits_append hdigits fun c hc => (hexponent.head c hc).1

private theorem spanDigits_point (hdigits : Numeral (whole ++ fraction)) :
    spanDigits (whole ++ '.' :: behind) = (whole, '.' :: behind) :=
  spanDigits_append (fun c hc => hdigits.isDigit c (List.mem_append_left _ hc))
    (by rintro _ ⟨⟩; rfl)

/-- Behind digits without a point no point follows. -/
theorem append_ne_point {first : List Char} (hdigits : Numeral first)
    (hexponent : ExponentForm tail exponent) (hpoint : Numeral (whole ++ fraction)) :
    first ++ tail ≠ whole ++ '.' :: behind := by
  intro heq
  have hspan := congrArg spanDigits heq
  rw [hexponent.spanDigits_append hdigits.isDigit, spanDigits_point hpoint, Prod.mk.injEq] at hspan
  exact (hexponent.head '.' (by rw [hspan.2]; rfl)).2 rfl

/-- A magnitude is written with one number of digits and one exponent. -/
theorem MagnitudeForm.unique {digits' : Nat} {exponent' : Int}
    (h : MagnitudeForm text digits exponent) (h' : MagnitudeForm text digits' exponent') :
    digits = digits' ∧ exponent = exponent' := by
  obtain ⟨other, htext⟩ : ∃ other, other = text := ⟨_, rfl⟩
  rw [← htext] at h'
  cases h with
  | whole hdigits hexponent =>
    cases h' with
    | whole hdigits' hexponent' =>
      have hspan := congrArg spanDigits htext
      rw [hexponent.spanDigits_append hdigits.isDigit,
        hexponent'.spanDigits_append hdigits'.isDigit] at hspan
      cases hspan
      exact ⟨rfl, hexponent.unique hexponent'⟩
    | point hdigits' hexponent' =>
      exact absurd htext.symm (append_ne_point hdigits hexponent hdigits')
  | point hdigits hexponent =>
    cases h' with
    | whole hdigits' hexponent' =>
      exact absurd htext (append_ne_point hdigits' hexponent' hdigits)
    | point hdigits' hexponent' =>
      have hspan := congrArg spanDigits htext
      rw [spanDigits_point hdigits, spanDigits_point hdigits', Prod.mk.injEq,
        List.cons.injEq] at hspan
      obtain ⟨rfl, -, hbehind⟩ := hspan
      -- the digits behind the point end where the exponent starts
      have hfraction := congrArg spanDigits hbehind
      rw [hexponent.spanDigits_append fun c hc => hdigits.isDigit c (List.mem_append_right _ hc),
        hexponent'.spanDigits_append fun c hc => hdigits'.isDigit c (List.mem_append_right _ hc)]
        at hfraction
      cases hfraction
      exact ⟨rfl, congrArg (· - _) (hexponent.unique hexponent')⟩

private theorem numeralForm_iff : NumeralForm text negative digits exponent ↔
    (spanSign text).1 = negative ∧ MagnitudeForm (spanSign text).2 digits exponent := by
  constructor
  · rintro ⟨hsign, h⟩
    rw [hsign.spanSign_eq h.unsigned]
    exact ⟨rfl, h⟩
  · rintro ⟨rfl, h⟩
    obtain ⟨sign, hsign, htext⟩ := exists_signForm text
    have hform := NumeralForm.mk hsign h
    rwa [← htext] at hform

end Uniqueness

section Values

/-- The text is a numeral of the number `q`. -/
def Denotes (text : List Char) (q : ℚ) : Prop :=
  ∃ negative digits exponent, NumeralForm text negative digits exponent ∧
    q = decimalValue negative digits exponent

variable {q : ℚ}

/-- A numeral denotes at most one number. -/
theorem Denotes.unique {q' : ℚ} (h : Denotes text q) (h' : Denotes text q') : q = q' := by
  obtain ⟨negative, digits, exponent, hform, rfl⟩ := h
  obtain ⟨negative', digits', exponent', hform', rfl⟩ := h'
  obtain ⟨rfl, hmagnitude⟩ := numeralForm_iff.1 hform
  obtain ⟨rfl, hmagnitude'⟩ := numeralForm_iff.1 hform'
  obtain ⟨rfl, rfl⟩ := hmagnitude.unique hmagnitude'
  rfl

/-- An integer is a number as well. -/
theorem denotes_of_integerForm {z : Int} (h : IntegerForm text z) : Denotes text z := by
  obtain @⟨sign, digits, negative, hsign, hdigits⟩ := h
  have hform := MagnitudeForm.whole hdigits .none
  rw [List.append_nil] at hform
  refine ⟨negative, digitsValue digits, 0, .mk hsign hform, ?_⟩
  rw [decimalValue, zpow_zero, mul_one, signed, withSign]
  split <;> simp

/-- **Numerals.** What writes a number is read as what the number is rounded to. -/
theorem Denotes.exists_read?_eq (h : Denotes text q) : ∃ x, read? text = some x ∧ Rounds q x := by
  obtain ⟨negative, digits, exponent, hform, rfl⟩ := h
  refine ⟨ofDecimal negative digits exponent, ?_, rounds_ofDecimal negative digits exponent⟩
  obtain ⟨hsign, hmagnitude⟩ := numeralForm_iff.1 hform
  simp only [read?, hmagnitude.map_toLower_ne (.inl rfl), hmagnitude.map_toLower_ne (.inr rfl),
    or_self, if_false, hmagnitude.readMagnitude?_eq, hsign]

/-- No other text is read as a finite number. -/
theorem exists_denotes_of_read? {x : Binary64} (h : read? text = some x) (hx : x.isFinite = true) :
    ∃ q, Denotes text q ∧ Rounds q x := by
  simp only [read?] at h
  split at h
  · cases h
    cases hx
  split at h
  · cases h
    cases hx
  · obtain ⟨digits, exponent, hmagnitude, rfl⟩ := exists_magnitudeForm h
    exact ⟨_, ⟨_, digits, exponent, numeralForm_iff.2 ⟨rfl, hmagnitude⟩, rfl⟩,
      rounds_ofDecimal _ digits exponent⟩

end Values

end Bookkeeping.Binary64
