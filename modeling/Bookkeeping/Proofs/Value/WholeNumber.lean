import Bookkeeping.Proofs.Binary64.Integers
import Bookkeeping.Proofs.Binary64.Numeral
import Bookkeeping.Value.Coercion

/-!
# Whole numbers from texts

A text that does not have the form of a 64-bit integer is read as an integer through the nearest
decimal. What it is checked for, a fraction and the range, it is checked for after the rounding:
the number that the text writes need not be the integer that it is read as.
-/

namespace Bookkeeping

open Bookkeeping.Text

namespace Value

open Binary64

variable {text : List Char} {x : Binary64} {n : Int64} {q : ℚ}

private theorem wholeNumber?_eq_some_iff :
    wholeNumber? x = some n ↔ x.toRat? = some (n.toInt : ℚ) := by
  rw [wholeNumber?, Option.bind_eq_some_iff]
  simp only [toInt?_eq_some_iff, toInt64?_eq_some_iff]
  exact ⟨fun ⟨z, hz, hn⟩ => hn ▸ hz, fun h => ⟨_, h, rfl⟩⟩

/-- A decimal is a number of the integer kind if its value is a 64-bit integer. -/
theorem ofBinary64?_integer_eq_some_iff {v : Value} : ofBinary64? .integer x = some v ↔
    ∃ n : Int64, v = .int n ∧ x.toRat? = some (n.toInt : ℚ) := by
  simp only [← wholeNumber?_eq_some_iff]
  unfold ofBinary64?
  split
  · rw [Option.map_eq_some_iff]
    exact exists_congr fun n => ⟨fun h => ⟨h.2.symm, h.1⟩, fun h => ⟨h.2, h.1.symm⟩⟩
  · rename_i hfinite
    refine iff_of_false nofun ?_
    rintro ⟨n, -, h⟩
    exact hfinite (isFinite_of_toRat? (wholeNumber?_eq_some_iff.1 h))

/-- How a text is read as an integer: as the one that it writes in digits, or else as the whole
number of the format that the number it writes is rounded to. -/
inductive ReadsInteger (text : List Char) (n : Int64) : Prop
  | exact (h : IntegerForm text n.toInt)
  | rounded {q : ℚ} {x : Binary64} (hform : ∀ m : Int64, ¬IntegerForm text m.toInt)
      (hdenotes : Denotes text q) (hx : Rounds q x) (hvalue : x.toRat? = some (n.toInt : ℚ))

private theorem number?_integer_eq_some_iff {s : String} {v : Value} :
    (Value.text s).number? .integer = some v ↔
      ∃ n, v = .int n ∧ ReadsInteger (trim s.toList) n := by
  simp only [number?]
  cases hread : readInt64? (trim s.toList) with
  | some m =>
    have hform := readInt64?_eq_some_iff.1 hread
    constructor
    · intro h
      exact ⟨m, (Option.some.inj h).symm, .exact hform⟩
    · rintro ⟨n, rfl, h⟩
      cases h with
      | exact h =>
        obtain rfl := Int64.toInt_inj.1 (h.unique hform)
        rfl
      | rounded hnone => exact absurd hform (hnone m)
  | none =>
    have hnone : ∀ m : Int64, ¬IntegerForm (trim s.toList) m.toInt := by
      intro m hform
      rw [readInt64?_eq_some_iff.2 hform] at hread
      cases hread
    simp only [Option.bind_eq_some_iff, ofBinary64?_integer_eq_some_iff]
    constructor
    · rintro ⟨x, hx, n, rfl, hvalue⟩
      obtain ⟨q, hdenotes, hrounds⟩ := exists_denotes_of_read? hx (isFinite_of_toRat? hvalue)
      exact ⟨n, rfl, .rounded hnone hdenotes hrounds hvalue⟩
    · rintro ⟨n, rfl, h⟩
      cases h with
      | exact h => exact absurd h (hnone n)
      | rounded hform hdenotes hx hvalue =>
        obtain ⟨x, hread, hrounds⟩ := hdenotes.exists_read?_eq
        exact ⟨x, hread, n, rfl, (hrounds.toRat?_congr hx).trans hvalue⟩

section Rounded

/-- Every text that is read as an integer writes a number, and the integer is what this number is
rounded to, or the number itself. -/
theorem ReadsInteger.eq_or_rounds (h : ReadsInteger text n) (hdenotes : Denotes text q) :
    q = n.toInt ∨ ∃ x, Rounds q x ∧ x.toRat? = some (n.toInt : ℚ) := by
  cases h with
  | exact hform => exact .inl (hdenotes.unique (denotes_of_integerForm hform))
  | rounded _ hdenotes' hx hvalue => exact .inr ⟨_, hdenotes.unique hdenotes' ▸ hx, hvalue⟩

/-- A number of the format is read as an integer if it is one. -/
theorem readsInteger_iff_of_toRat? {y : Binary64} (hdenotes : Denotes text q)
    (hy : y.toRat? = some q) : ReadsInteger text n ↔ q = n.toInt := by
  constructor
  · intro h
    rcases h.eq_or_rounds hdenotes with hq | ⟨x, hx, hvalue⟩
    · exact hq
    · exact Option.some.inj ((hx.toRat?_eq hy).symm.trans hvalue)
  · rintro rfl
    by_cases hform : ∃ m : Int64, IntegerForm text m.toInt
    · obtain ⟨m, hm⟩ := hform
      have hvalue := hdenotes.unique (denotes_of_integerForm hm)
      have hmn : n.toInt = m.toInt := by exact_mod_cast hvalue
      exact .exact (hmn ▸ hm)
    · exact .rounded (not_exists.1 hform) hdenotes (rounds_of_toRat? hy) hy

/-- What is read differs from what is written by one part in `2 ^ 53` at most; zero is read where
at most half a unit is written. -/
theorem ReadsInteger.abs_sub_le (h : ReadsInteger text n) (hdenotes : Denotes text q) :
    |q - n.toInt| * 2 ^ 53 ≤ |(n.toInt : ℚ)| ∨ n = 0 ∧ 2 * |q| * unitsPerOne ≤ 1 := by
  rcases h.eq_or_rounds hdenotes with rfl | ⟨x, hx, hvalue⟩
  · rw [sub_self, abs_zero, zero_mul]
    exact .inl (abs_nonneg _)
  · by_cases hzero : n = 0
    · subst hzero
      refine .inr ⟨rfl, hx.abs_mul_le_one ?_⟩
      rwa [Int64.toInt_zero, Int.cast_zero] at hvalue
    · refine .inl (hx.abs_sub_mul_le hvalue ?_)
      have hint : n.toInt ≠ 0 := fun h => hzero (Int64.toInt_inj.1 h)
      exact_mod_cast Int.one_le_abs hint

/-- What is written is in the range of 64-bit integers, or 1024 below it at most. -/
theorem ReadsInteger.mem_range (h : ReadsInteger text n) (hdenotes : Denotes text q) :
    -2 ^ 63 - 1024 ≤ q ∧ q < 2 ^ 63 := by
  have hlow : (-2 ^ 63 : ℚ) ≤ n.toInt := by exact_mod_cast n.le_toInt
  have hhigh : (n.toInt : ℚ) < 2 ^ 63 := by exact_mod_cast n.toInt_lt
  have habs : |(n.toInt : ℚ)| ≤ 2 ^ 63 := abs_le.2 ⟨hlow, hhigh.le⟩
  constructor
  · rcases h.abs_sub_le hdenotes with herror | ⟨rfl, herror⟩
    · have hnear := (abs_le.1 (show |q - n.toInt| ≤ 1024 by linarith)).1
      linarith
    · have hone : (1 : ℚ) ≤ unitsPerOne := by exact_mod_cast unitsPerOne_pos
      have hsmall : |q| ≤ |q| * unitsPerOne := le_mul_of_one_le_right (abs_nonneg q) hone
      have hnear := (abs_le.1 (show |q| ≤ 1 by linarith)).1
      linarith
  · by_contra hlarge
    rcases h.eq_or_rounds hdenotes with rfl | ⟨x, hx, hvalue⟩
    · linarith
    · -- the end of the range is a number of the format, and rounding does not go below it
      obtain ⟨y, hy⟩ := exists_toRat?_eq_two_pow (show 63 < 1024 by decide)
      have hle := hx.le_of_le hvalue hy (not_lt.1 hlarge)
      linarith

end Rounded

/-- **Texts read as integers.** A text is read as an integer where, trimmed, it is the integer's
digits, or else writes a number that is rounded to it. So a number of the format is read as an
integer exactly if it is that integer. Any other number is off by its rounding; it is not read if it
is beyond the upper end of the 64-bit range, or below the lower end by more than the rounding
there. -/
theorem text_integer_iff (s : String) :
    (∀ v, (Value.text s).number? .integer = some v ↔
      ∃ n, v = .int n ∧ ReadsInteger (trim s.toList) n) ∧
    ∀ q, Denotes (trim s.toList) q →
      ((∃ y : Binary64, y.toRat? = some q) →
        ∀ n, (Value.text s).number? .integer = some (.int n) ↔ q = n.toInt) ∧
      (∀ n, (Value.text s).number? .integer = some (.int n) →
        |q - n.toInt| * 2 ^ 53 ≤ |(n.toInt : ℚ)| ∨ n = 0 ∧ 2 * |q| * unitsPerOne ≤ 1) ∧
      (2 ^ 63 ≤ q ∨ q < -2 ^ 63 - 1024 → (Value.text s).number? .integer = none) := by
  have hreads (n : Int64) :
      (Value.text s).number? .integer = some (.int n) ↔ ReadsInteger (trim s.toList) n := by
    rw [number?_integer_eq_some_iff]
    exact ⟨fun ⟨m, hm, h⟩ => Value.int.inj hm ▸ h, fun h => ⟨n, rfl, h⟩⟩
  refine ⟨fun v => number?_integer_eq_some_iff, fun q hdenotes => ⟨?_, ?_, ?_⟩⟩
  · rintro ⟨y, hy⟩ n
    exact (hreads n).trans (readsInteger_iff_of_toRat? hdenotes hy)
  · exact fun n h => ((hreads n).1 h).abs_sub_le hdenotes
  · intro hrange
    by_contra hsome
    obtain ⟨v, hv⟩ := Option.ne_none_iff_exists'.1 hsome
    obtain ⟨n, rfl, h⟩ := number?_integer_eq_some_iff.1 hv
    obtain ⟨hlow, hhigh⟩ := h.mem_range hdenotes
    rcases hrange with hrange | hrange <;> linarith

/-- A whole number with a point and an exponent. -/
theorem text_integer_iff_scaled : (Value.text " +1.50e3 ").number? .integer = some (.int 1500) := by
  have htrim : trim " +1.50e3 ".toList =
      ['+'] ++ (['1'] ++ '.' :: (['5', '0'] ++ 'e' :: ['3'])) := by decide +kernel
  have hexponent : ExponentForm ['e', '3'] 3 :=
    .some (.inl rfl) (.mk .none (numeral_iff.1 rfl))
  have hdenotes : Denotes (trim " +1.50e3 ".toList) 1500 := by
    rw [htrim]
    refine ⟨_, _, _, .mk .plus (.point (numeral_iff.1 rfl) hexponent), ?_⟩
    rw [show digitsValue (['1'] ++ ['5', '0']) = 150 from rfl, decimalValue, withSign]
    norm_num
  have hvalue : (ofInt 1500).toRat? = some 1500 := by
    have hint : (ofInt 1500).toInt? = some 1500 := by decide +kernel
    exact_mod_cast toInt?_eq_some_iff.1 hint
  refine (((text_integer_iff " +1.50e3 ").2 1500 hdenotes).1 ⟨_, hvalue⟩ 1500).2 ?_
  rw [show (1500 : Int64).toInt = 1500 by decide]
  norm_num

/-- A fraction close to one is read as one, and a number beyond the lower end as the lower end. -/
theorem text_integer_inexact :
    (∃ q, Denotes (trim "0.99999999999999999999".toList) q ∧ (∀ z : Int, q ≠ z) ∧
      (Value.text "0.99999999999999999999").number? .integer = some (.int 1)) ∧
    ∃ q, Denotes (trim "-9223372036854775809".toList) q ∧ q < Int64.minValue.toInt ∧
      (Value.text "-9223372036854775809").number? .integer = some (.int Int64.minValue) := by
  refine ⟨⟨99999999999999999999 / 10 ^ 20, ?_, ?_, ?_⟩, ⟨-9223372036854775809, ?_, ?_, ?_⟩⟩
  · have htrim : trim "0.99999999999999999999".toList =
        [] ++ (['0'] ++ '.' :: (List.replicate 20 '9' ++ [])) := by decide +kernel
    rw [htrim]
    refine ⟨_, _, _, .mk .none (.point (numeral_iff.1 rfl) .none), ?_⟩
    rw [show digitsValue (['0'] ++ List.replicate 20 '9') = 99999999999999999999 by decide +kernel,
      decimalValue, withSign]
    norm_num
  · intro z hz
    have hpos : (0 : ℚ) < z := by rw [← hz]; norm_num
    have hlt : (z : ℚ) < 1 := by rw [← hz]; norm_num
    have hpos' : 0 < z := by exact_mod_cast hpos
    have hlt' : z < 1 := by exact_mod_cast hlt
    omega
  · decide +kernel
  · have hform : IntegerForm (trim "-9223372036854775809".toList) (-9223372036854775809) := by
      have h := integerForm_intText (-9223372036854775809)
      rwa [show (intText (-9223372036854775809)).toList = trim "-9223372036854775809".toList by
        decide +kernel] at h
    exact_mod_cast denotes_of_integerForm hform
  · rw [show Int64.minValue.toInt = -9223372036854775808 by decide]
    norm_num
  · decide +kernel

end Value

end Bookkeeping
