import Bookkeeping.Binary64.Rounding
import Mathlib.Tactic.Linarith
import Mathlib.Tactic.Ring

/-!
# Nearest numbers

A ratio is rounded to the number of the format that lies nearest to it, as if there were no end to
the exponents; of two equally near ones the one of even rank counts. Magnitudes past the last finite
one are infinite. There is exactly one such number, and it is the one that a decimal is read as.
-/

namespace Bookkeeping.Binary64

/-- The distance of a magnitude from the ratio `num / den`, in units and times `den`. -/
def gap (num den rank : Nat) : Nat :=
  let magnitude := units rank * den
  let amount := num * unitsPerOne
  (magnitude - amount) + (amount - magnitude)

/-- No magnitude is nearer to the ratio than that of the rank, and if another is as near, then the
rank is even. -/
structure NearestRank (num den rank : Nat) : Prop where
  le_gap : ∀ other, gap num den rank ≤ gap num den other
  even : ∀ other, other ≠ rank → gap num den other = gap num den rank → rank % 2 = 0

/-- The number of this sign is the nearest one to the ratio. -/
def Nearest (negative : Bool) (num den : Nat) (x : Binary64) : Prop :=
  ∃ rank, NearestRank num den rank ∧ x = ofRank negative rank

/-- Ranks count in steps of `2 ^ doublings` units between `2 ^ 52` and `2 ^ 53` such steps. -/
theorem units_add {doublings steps : Nat} (hlow : doublings = 0 ∨ 2 ^ 52 ≤ steps)
    (hhigh : steps ≤ 2 ^ 53) :
    units (doublings * 2 ^ 52 + steps) = steps * 2 ^ doublings := by
  simp only [units, Nat.shiftRight_eq_div_pow, Nat.shiftLeft_eq]
  rcases Nat.eq_or_lt_of_le hhigh with rfl | hlt
  · -- the last of these ranks is the first of the next step size
    have hdoublings : (doublings * 2 ^ 52 + 2 ^ 53) / 2 ^ 52 - 1 = doublings + 1 := by omega
    have hsteps : doublings * 2 ^ 52 + 2 ^ 53 - (doublings + 1) * 2 ^ 52 = 2 ^ 52 := by omega
    rw [hdoublings, hsteps, pow_succ]
    ring
  · have hdoublings : (doublings * 2 ^ 52 + steps) / 2 ^ 52 - 1 = doublings := by omega
    rw [hdoublings, Nat.add_sub_cancel_left]

/-- Every rank is one of these. -/
theorem exists_steps (rank : Nat) : ∃ doublings steps,
    rank = doublings * 2 ^ 52 + steps ∧ (doublings = 0 ∨ 2 ^ 52 ≤ steps) ∧ steps < 2 ^ 53 := by
  rcases Nat.lt_or_ge rank (2 ^ 52) with h | h
  · exact ⟨0, rank, by omega, .inl rfl, by omega⟩
  · refine ⟨rank / 2 ^ 52 - 1, rank - (rank / 2 ^ 52 - 1) * 2 ^ 52, ?_, .inr ?_, ?_⟩ <;> omega

private theorem units_lt_units_succ (rank : Nat) : units rank < units (rank + 1) := by
  obtain ⟨doublings, steps, rfl, hlow, hhigh⟩ := exists_steps rank
  rw [units_add hlow hhigh.le, Nat.add_assoc,
    units_add (hlow.imp_right fun h => h.trans (Nat.le_succ steps)) hhigh]
  exact Nat.mul_lt_mul_of_pos_right (Nat.lt_succ_self steps) (Nat.two_pow_pos doublings)

/-- A greater rank has more units. -/
theorem units_strictMono : StrictMono units :=
  strictMono_nat_of_lt_succ units_lt_units_succ

/-- The amount lies between the magnitude of its rank and the next. -/
theorem units_rankBelow (amount : Nat) :
    units (rankBelow amount) ≤ amount ∧ amount < units (rankBelow amount + 1) := by
  obtain ⟨doublings, hdoublings⟩ : ∃ doublings, amount.log2 - 52 = doublings := ⟨_, rfl⟩
  have hpos := Nat.two_pow_pos doublings
  have hlow : doublings = 0 ∨ 2 ^ 52 ≤ amount / 2 ^ doublings := by
    rcases Nat.eq_zero_or_pos doublings with h | h
    · exact .inl h
    · have hne : amount ≠ 0 := by
        rintro rfl
        simp at hdoublings
        omega
      refine .inr ((Nat.le_div_iff_mul_le hpos).2 ?_)
      rw [← pow_add, show 52 + doublings = amount.log2 by omega]
      exact Nat.log2_self_le hne
  have hhigh : amount / 2 ^ doublings < 2 ^ 53 := by
    refine Nat.div_lt_of_lt_mul ?_
    rw [← pow_add]
    exact Nat.lt_log2_self.trans_le (Nat.pow_le_pow_right (by omega) (by omega))
  have hrank : rankBelow amount = doublings * 2 ^ 52 + amount / 2 ^ doublings := by
    simp only [rankBelow, Nat.shiftLeft_eq, Nat.shiftRight_eq_div_pow, hdoublings]
  rw [hrank, Nat.add_assoc, units_add hlow hhigh.le,
    units_add (hlow.imp_right fun h => h.trans (Nat.le_succ _)) hhigh]
  rw [Nat.mul_comm (amount / 2 ^ doublings + 1)]
  exact ⟨Nat.div_mul_le_self amount _, Nat.lt_mul_div_succ amount hpos⟩

section Rounding

variable {num den rank other : Nat}

/-- Of the magnitudes up to the ratio the greater is nearer. -/
theorem gap_lt_of_lt (hden : 0 < den) (h : other < rank)
    (hrank : units rank * den ≤ num * unitsPerOne) : gap num den rank < gap num den other := by
  have := Nat.mul_lt_mul_of_pos_right (units_strictMono h) hden
  simp only [gap]
  omega

/-- Of the magnitudes from the ratio on the smaller is nearer. -/
theorem gap_lt_of_gt (hden : 0 < den) (h : rank < other)
    (hrank : num * unitsPerOne ≤ units rank * den) : gap num den rank < gap num den other := by
  have := Nat.mul_lt_mul_of_pos_right (units_strictMono h) hden
  simp only [gap]
  omega

/-- The rank that rounding takes is the nearest. -/
theorem nearestRank_spec (hden : 0 < den) : NearestRank num den (nearestRank num den) := by
  obtain ⟨below, hbelow⟩ : ∃ below, rankBelow (num * unitsPerOne / den) = below := ⟨_, rfl⟩
  obtain ⟨hlow, hhigh⟩ := units_rankBelow (num * unitsPerOne / den)
  rw [hbelow, Nat.le_div_iff_mul_le hden] at hlow
  rw [hbelow, Nat.div_lt_iff_lt_mul hden] at hhigh
  -- all other magnitudes are farther than one of these two
  have hothers (other : Nat) : other = below ∨ other = below + 1 ∨
      gap num den below < gap num den other ∨ gap num den (below + 1) < gap num den other := by
    rcases Nat.lt_trichotomy other below with h | h | h
    · exact .inr (.inr (.inl (gap_lt_of_lt hden h hlow)))
    · exact .inl h
    · rcases Nat.eq_or_lt_of_le (Nat.succ_le_of_lt h) with h | h
      · exact .inr (.inl h.symm)
      · exact .inr (.inr (.inr (gap_lt_of_gt hden h hhigh.le)))
  have hgaps : gap num den below = num * unitsPerOne - units below * den ∧
      gap num den (below + 1) = units (below + 1) * den - num * unitsPerOne := by
    simp only [gap]
    omega
  have hmiddle : (units below + units (below + 1)) * den =
      units below * den + units (below + 1) * den := Nat.add_mul ..
  simp only [nearestRank, hbelow]
  split
  · refine ⟨fun other => ?_, fun other hother hsame => ?_⟩
    · rcases hothers other with rfl | rfl | h | h <;> omega
    · rcases hothers other with rfl | rfl | h | h <;> omega
  · split
    · refine ⟨fun other => ?_, fun other hother hsame => ?_⟩
      · rcases hothers other with rfl | rfl | h | h <;> omega
      · rcases hothers other with rfl | rfl | h | h <;> omega
    · have hsame : gap num den (below + below % 2) = gap num den below := by
        rcases Nat.mod_two_eq_zero_or_one below with h | h <;> rw [h]
        · rfl
        · omega
      refine ⟨fun other => ?_, fun other _ _ => by omega⟩
      rcases hothers other with rfl | rfl | h | h <;> omega

/-- There is only one nearest rank. -/
theorem NearestRank.unique (hden : 0 < den) (h : NearestRank num den rank)
    (hother : NearestRank num den other) : rank = other := by
  by_contra hne
  wlog hlt : rank < other generalizing rank other
  · exact this hother h (Ne.symm hne) (by omega)
  -- both are even, so there is a magnitude between them, and it is nearer
  have hsame : gap num den rank = gap num den other :=
    Nat.le_antisymm (h.le_gap other) (hother.le_gap rank)
  have hrank := h.even other (Ne.symm hne) hsame.symm
  have heven := hother.even rank hne hsame
  rcases Nat.le_total (units (rank + 1) * den) (num * unitsPerOne) with hbetween | hbetween
  · have := gap_lt_of_lt hden (show rank < rank + 1 by omega) hbetween
    have := h.le_gap (rank + 1)
    omega
  · have := gap_lt_of_gt hden (show rank + 1 < other by omega) hbetween
    have := hother.le_gap (rank + 1)
    omega

end Rounding

section Decimals

variable {negative : Bool} {digits places : Nat}

/-- A ratio is read as the number nearest to it. -/
theorem nearest_ofRatio (negative : Bool) (num : Nat) {den : Nat} (hden : 0 < den) :
    Nearest negative num den (ofRatio negative num den) :=
  ⟨_, nearestRank_spec hden, rfl⟩

/-- A ratio of less than half a unit is rounded to zero. -/
theorem nearest_zero (negative : Bool) {num den : Nat} (h : 2 * (num * unitsPerOne) < den) :
    Nearest negative num den (zero negative) := by
  have hzero : gap num den 0 = num * unitsPerOne := by
    have hunits : units 0 = 0 := rfl
    simp only [gap, hunits, Nat.zero_mul]
    omega
  refine ⟨0, ⟨fun other => ?_, fun _ _ _ => rfl⟩, rfl⟩
  rcases Nat.eq_zero_or_pos other with rfl | hother
  · exact Nat.le_refl _
  · -- every other magnitude is a unit or more
    have hunits : 0 < units other := units_strictMono hother
    have := Nat.le_mul_of_pos_left den hunits
    rw [hzero, gap]
    omega

/-- Of more decimal places than that nothing is left. -/
theorem amount_lt_of_log2_lt (h : digits.log2 + 400 < places) :
    2 * (digits * unitsPerOne) < 10 ^ places := by
  have hdigits : digits < 2 ^ (digits.log2 + 1) := Nat.lt_log2_self
  obtain ⟨finest, hfinest⟩ : ∃ finest, finest = 1074 := ⟨_, rfl⟩
  have hunits : unitsPerOne = 2 ^ finest := by
    rw [unitsPerOne, ← hfinest, Nat.one_shiftLeft]
  calc
    2 * (digits * unitsPerOne) = digits * 2 ^ (finest + 1) := by
      rw [hunits, Nat.mul_left_comm, Nat.mul_comm 2, ← pow_succ]
    _ < 2 ^ (digits.log2 + 1) * 2 ^ (finest + 1) :=
      Nat.mul_lt_mul_of_pos_right hdigits (Nat.two_pow_pos _)
    _ = 2 ^ (digits.log2 + 1 + (finest + 1)) := (pow_add 2 _ _).symm
    _ ≤ 2 ^ (3 * (digits.log2 + 401)) := Nat.pow_le_pow_right (by decide) (by omega)
    _ = 8 ^ (digits.log2 + 401) := pow_mul 2 3 _
    _ ≤ 10 ^ (digits.log2 + 401) := Nat.pow_le_pow_left (by decide) _
    _ ≤ 10 ^ places := Nat.pow_le_pow_right (by decide) (by omega)

/-- Reading a decimal with a fraction of so many places gives the nearest number. -/
theorem nearest_ofDecimal (negative : Bool) (digits places : Nat) :
    Nearest negative digits (10 ^ places) (ofDecimal negative digits (-(places : Int))) := by
  have hden : 0 < 10 ^ places := Nat.pow_pos (by decide)
  unfold ofDecimal
  split
  · rename_i hdigits
    subst hdigits
    exact nearest_zero negative (by omega)
  split
  · omega
  split
  · exact nearest_zero negative (amount_lt_of_log2_lt (by omega))
  split
  · obtain rfl : places = 0 := by omega
    simpa using nearest_ofRatio negative digits hden
  · simpa using nearest_ofRatio negative digits hden

/-- The nearest number to a decimal numeral is the one that it is read as, and no other. -/
theorem nearest_iff_eq_ofDecimal {x : Binary64} :
    Nearest negative digits (10 ^ places) x ↔ x = ofDecimal negative digits (-(places : Int)) := by
  obtain ⟨rank, hrank, hread⟩ := nearest_ofDecimal negative digits places
  constructor
  · rintro ⟨other, hother, rfl⟩
    rw [hread, hother.unique (Nat.pow_pos (by decide)) hrank]
  · rintro rfl
    exact ⟨rank, hrank, hread⟩

end Decimals

end Bookkeeping.Binary64
