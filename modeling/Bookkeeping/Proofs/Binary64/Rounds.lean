import Bookkeeping.Proofs.Binary64.Magnitude

/-!
# Numbers of the format that rational numbers are rounded to

A rational number is rounded to the nearest number of the format, and that has a place on the line.
The places of greater numbers are no smaller, and a number of the format is rounded to itself.
Integers and decimals are rounded in this sense.
-/

namespace Bookkeeping.Binary64

/-- A magnitude with a sign. -/
def withSign (negative : Bool) (size : ℚ) : ℚ :=
  if negative then -size else size

/-- The sign does not change the size. -/
theorem abs_withSign (negative : Bool) {size : ℚ} (h : 0 ≤ size) :
    |withSign negative size| = size := by
  cases negative
  · exact abs_of_nonneg h
  · exact (abs_neg size).trans (abs_of_nonneg h)

/-- The value of a finite number. -/
def toRat? : Binary64 → Option ℚ
  | .finite negative rank => some (withSign negative (magnitude rank))
  | _ => none

/-- The number is what `q` is rounded to. -/
def Rounds (q : ℚ) (x : Binary64) : Prop :=
  ∃ negative size rank, 0 ≤ size ∧ NearestMagnitude size rank ∧ q = withSign negative size ∧
    x = ofRank negative rank

variable {q q' : ℚ} {x y : Binary64}

section Places

private theorem toRat?_eq_some_iff : x.toRat? = some q ↔
    ∃ negative rank, rank < magnitudes ∧ x = ofRank negative rank ∧
      q = withSign negative (magnitude rank) := by
  constructor
  · intro h
    cases x with
    | finite negative rank =>
      refine ⟨negative, rank, rank.isLt, ?_, (Option.some.inj h).symm⟩
      rw [ofRank, dif_pos rank.isLt]
    | infinite negative => cases h
    | nan => cases h
  · rintro ⟨negative, rank, hrank, rfl, rfl⟩
    rw [ofRank, dif_pos hrank]
    rfl

/-- A number with a rational value is finite. -/
theorem isFinite_of_toRat? (h : x.toRat? = some q) : x.isFinite = true := by
  cases x with
  | finite => rfl
  | infinite => cases h
  | nan => cases h

/-- The powers of two up to the end of the finite range are numbers of the format. -/
theorem exists_toRat?_eq_two_pow {exponent : Nat} (h : exponent < 1024) :
    ∃ x : Binary64, x.toRat? = some (2 ^ exponent) := by
  obtain ⟨rank, hrank, hvalue⟩ := exists_magnitude_eq_two_pow h
  exact ⟨_, toRat?_eq_some_iff.2 ⟨false, rank, hrank, rfl, hvalue.symm⟩⟩

/-- The place of a rank counts from zero, down for a negative number. -/
theorem place?_ofRank (negative : Bool) (rank : Nat) :
    (ofRank negative rank).place? =
      some (if negative then -(min rank magnitudes : Int) else min rank magnitudes) := by
  unfold ofRank
  split
  · rename_i h
    rw [min_eq_left (by exact_mod_cast h.le)]
    rfl
  · rename_i h
    rw [min_eq_right (by exact_mod_cast Nat.le_of_not_lt h)]
    rfl

/-- Ranks past the finite magnitudes make no difference. -/
theorem ofRank_eq_of_min_eq {negative : Bool} {rank other : Nat}
    (h : min rank magnitudes = min other magnitudes) :
    ofRank negative rank = ofRank negative other := by
  unfold ofRank
  split
  · rename_i hrank
    obtain rfl : rank = other := by omega
    rw [dif_pos hrank]
  · rename_i hrank
    rw [dif_neg (by omega)]

/-- Rounding is monotone. -/
theorem Rounds.exists_place_le (h : Rounds q x) (h' : Rounds q' y) (hle : q ≤ q') :
    ∃ place other, x.place? = some place ∧ y.place? = some other ∧ place ≤ other := by
  obtain ⟨negative, size, rank, hsize, hrank, rfl, rfl⟩ := h
  obtain ⟨negative', size', rank', hsize', hrank', rfl, rfl⟩ := h'
  refine ⟨_, _, place?_ofRank .., place?_ofRank .., ?_⟩
  cases negative <;> cases negative' <;>
    simp only [withSign, Bool.false_eq_true, if_false, if_true] at hle ⊢
  · have := hrank.mono hrank' hle
    omega
  · -- both are zero
    have hmono := hrank.mono nearestMagnitude_zero (by linarith)
    have hmono' := hrank'.mono nearestMagnitude_zero (by linarith)
    omega
  · omega
  · have := hrank'.mono hrank (by linarith)
    omega

/-- The values of finite numbers are ordered as their places are. -/
theorem toRat?_le_of_place_le {place other : Int} (hx : x.toRat? = some q) (hy : y.toRat? = some q')
    (hplace : x.place? = some place) (hother : y.place? = some other) (h : place ≤ other) :
    q ≤ q' := by
  obtain ⟨negative, rank, hrank, rfl, rfl⟩ := toRat?_eq_some_iff.1 hx
  obtain ⟨negative', rank', hrank', rfl, rfl⟩ := toRat?_eq_some_iff.1 hy
  obtain rfl := Option.some.inj ((place?_ofRank ..).symm.trans hplace)
  obtain rfl := Option.some.inj ((place?_ofRank ..).symm.trans hother)
  have hmono {rank other : Nat} (h : rank ≤ other) : magnitude rank ≤ magnitude other :=
    magnitude_strictMono.monotone h
  have hsize := magnitude_nonneg rank
  have hsize' := magnitude_nonneg rank'
  cases negative <;> cases negative' <;>
    simp only [withSign, Bool.false_eq_true, if_false, if_true] at h ⊢
  · exact hmono (by omega)
  · obtain rfl : rank = 0 := by omega
    obtain rfl : rank' = 0 := by omega
    simp
  · linarith
  · exact neg_le_neg (hmono (by omega))

end Places

section Exact

/-- A number of the format is rounded to itself. -/
theorem rounds_of_toRat? (h : x.toRat? = some q) : Rounds q x := by
  obtain ⟨negative, rank, -, rfl, rfl⟩ := toRat?_eq_some_iff.1 h
  exact ⟨negative, magnitude rank, rank, magnitude_nonneg rank, nearestMagnitude_magnitude rank,
    rfl, rfl⟩

/-- What two roundings of one number give has the same value. -/
theorem Rounds.toRat?_congr (h : Rounds q x) (h' : Rounds q y) : x.toRat? = y.toRat? := by
  obtain ⟨negative, size, rank, hsize, hrank, hq, rfl⟩ := h
  obtain ⟨negative', size', rank', hsize', hrank', hq', rfl⟩ := h'
  obtain rfl : size = size' := by
    rw [← abs_withSign negative hsize, ← hq, hq', abs_withSign negative' hsize']
  obtain rfl := hrank.unique hrank'
  by_cases hsign : negative = negative'
  · rw [hsign]
  · -- zero has two signs
    obtain rfl : size = 0 := by
      have heq := hq.symm.trans hq'
      cases negative <;> cases negative' <;>
        simp only [withSign, Bool.false_eq_true, if_false, if_true] at heq hsign
      · contradiction
      · linarith
      · linarith
      · contradiction
    obtain rfl := hrank.unique nearestMagnitude_zero
    have hzero (negative : Bool) : (ofRank negative 0).toRat? = some 0 :=
      toRat?_eq_some_iff.2 ⟨negative, 0, by decide, rfl, by cases negative <;> simp [withSign]⟩
    rw [hzero, hzero]

/-- What is rounded from the value of a number of the format has this value. -/
theorem Rounds.toRat?_eq (h : Rounds q x) (hy : y.toRat? = some q) : x.toRat? = some q :=
  (h.toRat?_congr (rounds_of_toRat? hy)).trans hy

/-- A number of the format that is at most `q` is at most what `q` is rounded to. -/
theorem Rounds.le_of_le (h : Rounds q x) {r bound : ℚ} (hx : x.toRat? = some r)
    (hy : y.toRat? = some bound) (hle : bound ≤ q) : bound ≤ r := by
  obtain ⟨place, other, hplace, hother, hplaces⟩ := (rounds_of_toRat? hy).exists_place_le h hle
  exact toRat?_le_of_place_le hy hx hplace hother hplaces

end Exact

section Error

private theorem abs_withSign_sub (negative : Bool) (size other : ℚ) :
    |withSign negative size - withSign negative other| = |size - other| := by
  cases negative
  · rfl
  · rw [withSign, withSign, if_pos rfl, if_pos rfl, neg_sub_neg, abs_sub_comm]

/-- A number that is rounded to a finite one has the sign of it and that magnitude nearest. -/
theorem Rounds.exists_nearest {r : ℚ} (h : Rounds q x) (hx : x.toRat? = some r) :
    ∃ negative size rank, 0 ≤ size ∧ NearestMagnitude size rank ∧ q = withSign negative size ∧
      r = withSign negative (magnitude rank) := by
  obtain ⟨negative, size, rank, hsize, hrank, rfl, rfl⟩ := h
  refine ⟨negative, size, rank, hsize, hrank, rfl, ?_⟩
  unfold ofRank at hx
  split at hx
  · exact (Option.some.inj hx).symm
  · cases hx

/-- From one on, rounding is off by one part in `2 ^ 53` at most. -/
theorem Rounds.abs_sub_mul_le {r : ℚ} (h : Rounds q x) (hx : x.toRat? = some r) (hr : 1 ≤ |r|) :
    |q - r| * 2 ^ 53 ≤ |r| := by
  obtain ⟨negative, size, rank, -, hrank, rfl, rfl⟩ := h.exists_nearest hx
  rw [abs_withSign negative (magnitude_nonneg rank)] at hr ⊢
  rw [abs_withSign_sub]
  exact hrank.abs_sub_mul_le (le_of_one_le_magnitude hr)

/-- Only numbers of at most half a unit are rounded to zero. -/
theorem Rounds.abs_mul_le_one (h : Rounds q x) (hx : x.toRat? = some 0) :
    2 * |q| * unitsPerOne ≤ 1 := by
  obtain ⟨negative, size, rank, hsize, hrank, rfl, hzero⟩ := h.exists_nearest hx
  have hmagnitude : magnitude rank = magnitude 0 := by
    rw [magnitude_zero, ← abs_withSign negative (magnitude_nonneg rank), ← hzero, abs_zero]
  obtain rfl := magnitude_strictMono.injective hmagnitude
  rw [abs_withSign negative hsize]
  exact hrank.mul_le_one

end Error

section Reading

/-- The nearest number to a ratio is what its value is rounded to. -/
theorem Nearest.rounds {negative : Bool} {num den : Nat} (hden : 0 < den)
    (h : Nearest negative num den x) : Rounds (withSign negative (num / den)) x := by
  obtain ⟨rank, hrank, rfl⟩ := h
  exact ⟨negative, num / den, rank, by positivity, nearestMagnitude_of_nearestRank hden hrank, rfl,
    rfl⟩

/-- An integer becomes the number that it is rounded to. -/
theorem rounds_ofInt (z : Int) : Rounds z (ofInt z) := by
  have h := (nearest_ofRatio (z < 0) z.natAbs Nat.one_pos).rounds Nat.one_pos
  have hvalue : withSign (decide (z < 0)) ((z.natAbs : ℚ) / (1 : Nat)) = z := by
    rw [Nat.cast_one, div_one, Nat.cast_natAbs, withSign]
    split
    · rename_i hneg
      rw [abs_of_neg (of_decide_eq_true hneg), Int.cast_neg, neg_neg]
    · rename_i hnonneg
      rw [abs_of_nonneg (by simpa using hnonneg)]
  rwa [hvalue] at h

/-- The value of digits with a sign and a decimal exponent. -/
def decimalValue (negative : Bool) (digits : Nat) (exponent : Int) : ℚ :=
  withSign negative (digits * 10 ^ exponent)

/-- With so many zeros behind them digits write a number past the last finite magnitude. -/
theorem magnitude_magnitudes_le {digits zeros : Nat} (hdigits : digits ≠ 0) (hzeros : 400 < zeros) :
    magnitude magnitudes ≤ digits * 10 ^ zeros := by
  have hpow : (2 : ℚ) ^ 1024 ≤ 10 ^ zeros :=
    calc
      (2 : ℚ) ^ 1024 ≤ 2 ^ (3 * zeros) := pow_le_pow_right₀ (by norm_num) (by omega)
      _ = 8 ^ zeros := by rw [pow_mul]; norm_num
      _ ≤ 10 ^ zeros := pow_le_pow_left₀ (by norm_num) (by norm_num) zeros
  have hone : (1 : ℚ) ≤ digits := by exact_mod_cast Nat.one_le_iff_ne_zero.2 hdigits
  rw [magnitude_magnitudes]
  exact hpow.trans (le_mul_of_one_le_left (by positivity) hone)

/-- **Decimals.** Reading a decimal rounds its value. -/
theorem rounds_ofDecimal (negative : Bool) (digits : Nat) (exponent : Int) :
    Rounds (decimalValue negative digits exponent) (ofDecimal negative digits exponent) := by
  rcases Int.le_total exponent 0 with hexponent | hexponent
  · obtain ⟨places, rfl⟩ : ∃ places : Nat, exponent = -(places : Int) := ⟨exponent.natAbs, by omega⟩
    have h := (nearest_ofDecimal negative digits places).rounds (Nat.pow_pos (by decide))
    have hvalue : (digits : ℚ) * 10 ^ (-(places : Int)) = digits / (10 ^ places : Nat) := by
      rw [zpow_neg, zpow_natCast, Nat.cast_pow, Nat.cast_ofNat, div_eq_mul_inv]
    rwa [decimalValue, hvalue]
  · obtain ⟨zeros, rfl⟩ : ∃ zeros : Nat, exponent = zeros := ⟨exponent.natAbs, by omega⟩
    have hvalue : ((digits * 10 ^ zeros : Nat) : ℚ) / (1 : Nat) = digits * 10 ^ zeros := by
      push_cast
      rw [div_one]
    rw [decimalValue, zpow_natCast]
    unfold ofDecimal
    split
    · rename_i hdigits
      refine ⟨negative, 0, 0, le_rfl, nearestMagnitude_zero, ?_, rfl⟩
      rw [hdigits, Nat.cast_zero, zero_mul]
    split
    · rename_i hdigits hlarge
      have hrank := nearestMagnitude_natCast (digits * 10 ^ zeros)
      rw [Nat.cast_mul, Nat.cast_pow, Nat.cast_ofNat] at hrank
      have hpast := (nearestMagnitude_magnitude magnitudes).mono hrank
        (magnitude_magnitudes_le hdigits (by omega))
      refine ⟨negative, _, _, by positivity, hrank, rfl, ?_⟩
      rw [ofRank, dif_neg (by omega)]
    split
    · omega
    · have h := (nearest_ofRatio negative (digits * 10 ^ zeros) Nat.one_pos).rounds Nat.one_pos
      rwa [hvalue] at h

end Reading

end Bookkeeping.Binary64
