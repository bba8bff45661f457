import Bookkeeping.Proofs.Binary64.Nearest
import Mathlib.Algebra.Order.Field.Rat
import Mathlib.Tactic.FieldSimp
import Mathlib.Tactic.Positivity

/-!
# Rounding rational numbers

The magnitudes as rational numbers, and rounding to the nearest of them. Rounding is monotone and
leaves alone what is a number of the format, so that two numbers can only be rounded to the same one
if no number of the format lies between them.
-/

namespace Bookkeeping.Binary64

/-- The magnitude of a rank. -/
def magnitude (rank : Nat) : ℚ :=
  units rank / unitsPerOne

/-- The unit is a negative power of two. Its exponent is kept apart, as a number that is not to be
computed with. -/
theorem unitsPerOne_eq : ∃ finest, finest = 1074 ∧ unitsPerOne = 2 ^ finest := by
  obtain ⟨finest, hfinest⟩ : ∃ finest, finest = 1074 := ⟨_, rfl⟩
  exact ⟨finest, hfinest, by rw [unitsPerOne, ← hfinest, Nat.one_shiftLeft]⟩

/-- One is made of at least one unit. -/
theorem unitsPerOne_pos : 0 < unitsPerOne := by
  obtain ⟨finest, -, hone⟩ := unitsPerOne_eq
  rw [hone]
  exact Nat.two_pow_pos finest

/-- A greater rank has a greater magnitude. -/
theorem magnitude_strictMono : StrictMono magnitude := by
  intro rank other h
  have hunits : (units rank : ℚ) < units other := by exact_mod_cast units_strictMono h
  have hpos : (0 : ℚ) < unitsPerOne := by exact_mod_cast unitsPerOne_pos
  exact div_lt_div_of_pos_right hunits hpos

/-- The least magnitude is zero. -/
@[simp]
theorem magnitude_zero : magnitude 0 = 0 := by
  rw [magnitude, show units 0 = 0 from rfl, Nat.cast_zero, zero_div]

/-- No magnitude is negative. -/
theorem magnitude_nonneg (rank : Nat) : 0 ≤ magnitude rank := by
  rw [magnitude]
  positivity

section Nearest

variable {q q' : ℚ} {rank other : Nat}

/-- No magnitude is nearer to the number than that of the rank, and if another is as near, then the
rank is even. -/
structure NearestMagnitude (q : ℚ) (rank : Nat) : Prop where
  le : ∀ other, |q - magnitude rank| ≤ |q - magnitude other|
  even : ∀ other, other ≠ rank → |q - magnitude other| = |q - magnitude rank| → rank % 2 = 0

/-- The greater of two numbers is the nearer one from their middle on. -/
theorem abs_sub_le_abs_sub_iff {low high : ℚ} (h : low < high) :
    |q - high| ≤ |q - low| ↔ low + high ≤ 2 * q := by
  rw [← sq_le_sq]
  constructor
  · intro hsquares
    nlinarith
  · intro hmiddle
    nlinarith

private theorem abs_sub_le_abs_sub_iff' {low high : ℚ} (h : low < high) :
    |q - low| ≤ |q - high| ↔ 2 * q ≤ low + high := by
  rw [← sq_le_sq]
  constructor
  · intro hsquares
    nlinarith
  · intro hmiddle
    nlinarith

/-- A greater number has no smaller nearest magnitude. -/
theorem NearestMagnitude.mono (h : NearestMagnitude q rank) (h' : NearestMagnitude q' other)
    (hle : q ≤ q') : rank ≤ other := by
  by_contra hnot
  have hlt := magnitude_strictMono (Nat.lt_of_not_le hnot)
  have hrank := (abs_sub_le_abs_sub_iff hlt).1 (h.le other)
  have hother := (abs_sub_le_abs_sub_iff' hlt).1 (h'.le rank)
  -- the two numbers are one and lie in the middle, so both ranks are even
  obtain rfl : q = q' := by linarith
  have hmiddle : 2 * q = magnitude other + magnitude rank := by linarith
  have hsame : |q - magnitude other| = |q - magnitude rank| :=
    le_antisymm ((abs_sub_le_abs_sub_iff' hlt).2 hmiddle.le)
      ((abs_sub_le_abs_sub_iff hlt).2 hmiddle.ge)
  have heven := h.even other (by omega) hsame
  have heven' := h'.even rank (by omega) hsame.symm
  -- and the magnitude between them is nearer
  have hbetween : other < other + 1 ∧ other + 1 < rank := by omega
  have hnear := (abs_sub_le_abs_sub_iff (magnitude_strictMono hbetween.2)).1 (h.le (other + 1))
  have := magnitude_strictMono hbetween.1
  linarith

/-- There is only one nearest magnitude. -/
theorem NearestMagnitude.unique (h : NearestMagnitude q rank) (h' : NearestMagnitude q other) :
    rank = other :=
  Nat.le_antisymm (h.mono h' le_rfl) (h'.mono h le_rfl)

/-- A magnitude is nearest to itself. -/
theorem nearestMagnitude_magnitude (rank : Nat) : NearestMagnitude (magnitude rank) rank := by
  refine ⟨fun other => ?_, fun other hother hsame => ?_⟩
  · rw [sub_self, abs_zero]
    exact abs_nonneg _
  · rw [sub_self, abs_zero, abs_eq_zero, sub_eq_zero] at hsame
    exact absurd (magnitude_strictMono.injective hsame).symm hother

/-- Zero is nearest to itself. -/
theorem nearestMagnitude_zero : NearestMagnitude 0 0 :=
  magnitude_zero ▸ nearestMagnitude_magnitude 0

/-- Nearest among the ranks to a ratio is nearest among the magnitudes to its value. -/
theorem nearestMagnitude_of_nearestRank {num den : Nat} (hden : 0 < den)
    (h : NearestRank num den rank) : NearestMagnitude (num / den) rank := by
  have hscale : (0 : ℚ) < den * unitsPerOne := by
    exact_mod_cast Nat.mul_pos hden unitsPerOne_pos
  have hgap (rank : Nat) :
      |(num / den : ℚ) - magnitude rank| = gap num den rank / (den * unitsPerOne) := by
    have hcast : (gap num den rank : ℚ) = |(num : ℚ) * unitsPerOne - units rank * den| := by
      simp only [gap]
      rcases Nat.le_total (units rank * den) (num * unitsPerOne) with hle | hle
      · have hcast : (units rank * den : ℚ) ≤ num * unitsPerOne := by exact_mod_cast hle
        rw [Nat.sub_eq_zero_of_le hle, Nat.zero_add, Nat.cast_sub hle,
          abs_of_nonneg (sub_nonneg.2 hcast)]
        push_cast
        ring
      · have hcast : (num * unitsPerOne : ℚ) ≤ units rank * den := by exact_mod_cast hle
        rw [Nat.sub_eq_zero_of_le hle, Nat.add_zero, Nat.cast_sub hle,
          abs_of_nonpos (sub_nonpos.2 hcast)]
        push_cast
        ring
    have hdenQ : (den : ℚ) ≠ 0 := by positivity
    have honeQ : (unitsPerOne : ℚ) ≠ 0 := by exact_mod_cast unitsPerOne_pos.ne'
    have hproduct : (num / den - magnitude rank : ℚ) * (den * unitsPerOne) =
        num * unitsPerOne - units rank * den := by
      rw [magnitude]
      field_simp
    rw [eq_div_iff hscale.ne', hcast, ← hproduct, abs_mul, abs_of_pos hscale]
  refine ⟨fun other => ?_, fun other hother hsame => h.even other hother ?_⟩
  · rw [hgap, hgap]
    exact div_le_div_of_nonneg_right (by exact_mod_cast h.le_gap other) hscale.le
  · rw [hgap, hgap, div_left_inj' hscale.ne'] at hsame
    exact_mod_cast hsame

/-- The rank nearest to a natural number. -/
theorem nearestMagnitude_natCast (num : Nat) : NearestMagnitude num (nearestRank num 1) := by
  have h : NearestMagnitude (num / (1 : Nat)) (nearestRank num 1) :=
    nearestMagnitude_of_nearestRank Nat.one_pos (nearestRank_spec Nat.one_pos)
  rwa [Nat.cast_one, div_one] at h

end Nearest

section Exact

/-- Fifty-three binary digits are enough for a number of units to be that of a rank. -/
theorem exists_units_eq {steps : Nat} (h : steps ≤ 2 ^ 53) (doublings : Nat) :
    ∃ rank, units rank = steps * 2 ^ doublings := by
  induction doublings generalizing steps with
  | zero => exact ⟨0 * 2 ^ 52 + steps, units_add (.inl rfl) h⟩
  | succ doublings ih =>
    -- the steps are doubled until they have all their digits
    rcases Nat.lt_or_ge steps (2 ^ 52) with hshort | hlong
    · obtain ⟨rank, hrank⟩ := ih (show steps * 2 ≤ 2 ^ 53 by omega)
      exact ⟨rank, by rw [hrank, Nat.mul_assoc, ← pow_succ']⟩
    · exact ⟨(doublings + 1) * 2 ^ 52 + steps, units_add (.inr hlong) h⟩

/-- They are enough for a whole number to be a magnitude. -/
theorem exists_magnitude_eq {steps : Nat} (h : steps ≤ 2 ^ 53) (doublings : Nat) :
    ∃ rank, magnitude rank = steps * 2 ^ doublings := by
  obtain ⟨finest, -, hone⟩ := unitsPerOne_eq
  obtain ⟨rank, hrank⟩ := exists_units_eq h (doublings + finest)
  refine ⟨rank, ?_⟩
  rw [magnitude, hrank, hone, pow_add]
  push_cast
  field_simp

/-- The magnitude that would follow the last finite one. -/
theorem magnitude_magnitudes : magnitude magnitudes = 2 ^ 1024 := by
  obtain ⟨finest, hfinest, hone⟩ := unitsPerOne_eq
  have hsteps : magnitudes = (972 + finest) * 2 ^ 52 + 2 ^ 52 := by
    rw [hfinest]
    decide
  have hunits : units magnitudes = 2 ^ 52 * 2 ^ (972 + finest) := by
    rw [hsteps]
    exact units_add (.inr le_rfl) (by omega)
  obtain ⟨above, habove⟩ : ∃ above, above = 972 := ⟨_, rfl⟩
  rw [magnitude, hunits, hone, ← habove, show 1024 = 52 + above by omega, pow_add, pow_add]
  push_cast
  field_simp
  norm_num

/-- The powers of two up to the end are finite magnitudes. -/
theorem exists_magnitude_eq_two_pow {exponent : Nat} (h : exponent < 1024) :
    ∃ rank < magnitudes, magnitude rank = 2 ^ exponent := by
  obtain ⟨rank, hrank⟩ := exists_magnitude_eq (show 1 ≤ 2 ^ 53 by norm_num) exponent
  rw [Nat.cast_one, one_mul] at hrank
  refine ⟨rank, magnitude_strictMono.lt_iff_lt.1 ?_, hrank⟩
  rw [hrank, magnitude_magnitudes]
  exact pow_lt_pow_right₀ one_lt_two h

end Exact

section Error

variable {q : ℚ} {rank : Nat}

/-- Below the first rank with all digits the magnitudes are small. -/
theorem le_of_one_le_magnitude (h : 1 ≤ magnitude rank) : 2 ^ 52 ≤ rank := by
  by_contra hshort
  obtain ⟨finest, hfinest, hone⟩ := unitsPerOne_eq
  have hunits : units (0 * 2 ^ 52 + rank) = rank * 2 ^ 0 := units_add (.inl rfl) (by omega)
  rw [Nat.zero_mul, Nat.zero_add, pow_zero, Nat.mul_one] at hunits
  have hpos : (0 : ℚ) < unitsPerOne := by exact_mod_cast unitsPerOne_pos
  rw [magnitude, hunits, le_div_iff₀ hpos, one_mul, hone] at h
  have hle : 2 ^ finest ≤ rank := by exact_mod_cast h
  have hpow : 2 ^ 52 ≤ 2 ^ finest := Nat.pow_le_pow_right (by decide) (by omega)
  omega

/-- Where the digits are all there, the nearest magnitude is off by half a unit of the last one. -/
theorem NearestMagnitude.abs_sub_mul_le (h : NearestMagnitude q rank) (hrank : 2 ^ 52 ≤ rank) :
    |q - magnitude rank| * 2 ^ 53 ≤ magnitude rank := by
  obtain ⟨doublings, steps, hsplit, hsteps, hhigh⟩ := exists_steps rank
  have hlow : 2 ^ 52 ≤ steps := by omega
  have hone : (0 : ℚ) < unitsPerOne := by exact_mod_cast unitsPerOne_pos
  obtain ⟨step, hstep⟩ : ∃ step : ℚ, step = 2 ^ doublings / unitsPerOne := ⟨_, rfl⟩
  have hstep0 : 0 < step := by
    rw [hstep]
    exact div_pos (pow_pos two_pos doublings) hone
  have hmagnitude {other count : Nat} (hunits : units other = count * 2 ^ doublings) :
      magnitude other = count * step := by
    rw [magnitude, hunits, hstep]
    push_cast
    exact mul_div_assoc ..
  have hvalue : magnitude rank = steps * step :=
    hmagnitude (by rw [hsplit]; exact units_add hsteps hhigh.le)
  -- one step further there is a magnitude on either side
  obtain ⟨below, hbelow⟩ := exists_units_eq (show steps - 1 ≤ 2 ^ 53 by omega) doublings
  obtain ⟨above, habove⟩ := exists_units_eq (show steps + 1 ≤ 2 ^ 53 by omega) doublings
  have hleft := h.le below
  have hright := h.le above
  rw [hmagnitude hbelow, hvalue, Nat.cast_sub (by omega),
    abs_sub_le_abs_sub_iff (by push_cast; linarith)] at hleft
  rw [hmagnitude habove, hvalue, abs_sub_le_abs_sub_iff' (by push_cast; linarith)] at hright
  push_cast at hleft hright
  have hhalf : |q - steps * step| ≤ step / 2 := by
    rw [abs_le]
    constructor <;> linarith
  have hlong : (2 : ℚ) ^ 52 ≤ steps := by exact_mod_cast hlow
  rw [hvalue]
  calc
    |q - steps * step| * 2 ^ 53 ≤ step / 2 * 2 ^ 53 := by gcongr
    _ = 2 ^ 52 * step := by ring
    _ ≤ steps * step := by gcongr

/-- At zero the nearest magnitude is off by half the least one. -/
theorem NearestMagnitude.mul_le_one (h : NearestMagnitude q 0) :
    2 * q * unitsPerOne ≤ 1 := by
  have hone : (0 : ℚ) < unitsPerOne := by exact_mod_cast unitsPerOne_pos
  obtain ⟨least, hleast⟩ := exists_units_eq (show 1 ≤ 2 ^ 53 by norm_num) 0
  have hvalue : magnitude least = 1 / unitsPerOne := by
    rw [magnitude, hleast, one_mul, pow_zero, Nat.cast_one]
  have hnear := h.le least
  rw [magnitude_zero, hvalue, abs_sub_le_abs_sub_iff' (div_pos one_pos hone), zero_add,
    le_div_iff₀ hone] at hnear
  exact hnear

end Error

end Bookkeeping.Binary64
