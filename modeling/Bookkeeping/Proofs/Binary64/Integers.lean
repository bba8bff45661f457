import Bookkeeping.Proofs.Binary64.Rounds

/-!
# Integers as numbers of the format

Integers compare as the numbers that they are rounded to, unless two of them are rounded to the same
number. That can only happen from `2 ^ 53` on, and up to 64 bits such integers are at most 1024
apart.
-/

namespace Bookkeeping.Binary64

variable {m n : Int}

section Values

variable {x : Binary64}

/-- A number is the whole number that its value is. -/
theorem toInt?_eq_some_iff {z : Int} : x.toInt? = some z ↔ x.toRat? = some (z : ℚ) := by
  cases x with
  | infinite negative => simp only [toInt?, toRat?, reduceCtorEq]
  | nan => simp only [toInt?, toRat?, reduceCtorEq]
  | finite negative rank =>
    have hone : (unitsPerOne : ℚ) ≠ 0 := by exact_mod_cast unitsPerOne_pos.ne'
    simp only [toInt?, toRat?]
    split
    · rename_i hwhole
      obtain ⟨k, hk⟩ := Nat.dvd_of_mod_eq_zero hwhole
      have hquotient : units rank / unitsPerOne = k := by
        rw [hk, Nat.mul_div_cancel_left k unitsPerOne_pos]
      have hmagnitude : magnitude rank = k := by
        rw [magnitude, hk, Nat.cast_mul, mul_div_cancel_left₀ _ hone]
      have hcast : ((if negative then -(k : Int) else k : Int) : ℚ) = withSign negative k := by
        cases negative <;> simp [withSign]
      rw [hquotient, hmagnitude, ← hcast, Option.some.injEq, Option.some.injEq, Int.cast_inj]
    · rename_i hfraction
      refine iff_of_false (Option.some_ne_none z).symm fun hvalue => hfraction ?_
      -- a whole number has a whole number of units
      have habs := abs_withSign negative (magnitude_nonneg rank)
      rw [Option.some.inj hvalue, magnitude, eq_div_iff hone, ← Int.cast_abs,
        Int.abs_eq_natAbs] at habs
      have hunits : z.natAbs * unitsPerOne = units rank := by exact_mod_cast habs
      rw [← hunits, Nat.mul_mod_left]

end Values

private theorem ofInt_eq_ofRank (z : Int) :
    ∃ rank, NearestMagnitude z.natAbs rank ∧ ofInt z = ofRank (z < 0) rank :=
  ⟨nearestRank z.natAbs 1, nearestMagnitude_natCast z.natAbs, rfl⟩

/-- Fifty-three binary digits are enough for a natural number to be a magnitude. -/
theorem exists_magnitude_eq_natCast {k : Nat} (h : k ≤ 2 ^ 53) : ∃ rank, magnitude rank = k := by
  obtain ⟨rank, hrank⟩ := exists_magnitude_eq h 0
  exact ⟨rank, by rw [hrank, pow_zero, mul_one]⟩

/-- Only zero is rounded to zero. -/
theorem NearestMagnitude.pos {k rank : Nat} (h : NearestMagnitude k rank) (hk : k ≠ 0) :
    0 < rank := by
  obtain ⟨first, hfirst⟩ := exists_magnitude_eq_natCast (k := 1) (by norm_num)
  rw [Nat.cast_one] at hfirst
  have hnear : NearestMagnitude 1 first := hfirst ▸ nearestMagnitude_magnitude first
  have hmono := hnear.mono h (by exact_mod_cast Nat.one_le_iff_ne_zero.2 hk)
  have hne : first ≠ 0 := by
    rintro rfl
    rw [magnitude_zero] at hfirst
    exact zero_ne_one hfirst
  omega

/-- Integers that are rounded to the same number have the same sign and the same nearest rank, up
to the end of the finite magnitudes. -/
theorem sign_eq_of_place_eq {place : Int} (hm : (ofInt m).place? = some place)
    (hn : (ofInt n).place? = some place) :
    (m < 0 ↔ n < 0) ∧ ∃ rank other, NearestMagnitude m.natAbs rank ∧
      NearestMagnitude n.natAbs other ∧ min rank magnitudes = min other magnitudes ∧
      ofInt m = ofRank (m < 0) rank ∧ ofInt n = ofRank (n < 0) other := by
  obtain ⟨rank, hrank, hofInt⟩ := ofInt_eq_ofRank m
  obtain ⟨other, hother, hofInt'⟩ := ofInt_eq_ofRank n
  rw [hofInt, place?_ofRank, Option.some.injEq] at hm
  rw [hofInt', place?_ofRank, Option.some.injEq] at hn
  have hmagnitudes : 0 < magnitudes := by decide
  have hmpos : m < 0 → 0 < rank := fun h => hrank.pos (by omega)
  have hnpos : n < 0 → 0 < other := fun h => hother.pos (by omega)
  by_cases hmneg : m < 0 <;> by_cases hnneg : n < 0 <;>
    simp only [hmneg, hnneg, decide_true, decide_false, Bool.false_eq_true, if_true,
      if_false] at hm hn
  · exact ⟨iff_of_true hmneg hnneg, rank, other, hrank, hother, by omega, hofInt, hofInt'⟩
  · have := hmpos hmneg
    omega
  · have := hnpos hnneg
    omega
  · exact ⟨iff_of_false hmneg hnneg, rank, other, hrank, hother, by omega, hofInt, hofInt'⟩

private theorem ofInt_eq_of_place_eq (h : (ofInt m).place? = (ofInt n).place?) :
    ofInt m = ofInt n := by
  obtain ⟨place, -, hplace, -⟩ := (rounds_ofInt m).exists_place_le (rounds_ofInt m) le_rfl
  obtain ⟨hsign, rank, other, -, -, hmin, hofInt, hofInt'⟩ :=
    sign_eq_of_place_eq hplace (h.symm.trans hplace)
  rw [hofInt, hofInt', ofRank_eq_of_min_eq hmin]
  simp only [hsign]

/-- Of two numbers that have a place the one further to the left is less. -/
theorem compare?_of_place {x y : Binary64} {place other : Int} (hx : x.place? = some place)
    (hy : y.place? = some other) : x.compare? y = some (compare place other) := by
  rw [compare?, hx, hy]

private theorem place_le_of_le {place other : Int} (hm : (ofInt m).place? = some place)
    (hn : (ofInt n).place? = some other) (h : m ≤ n) : place ≤ other := by
  obtain ⟨first, second, hfirst, hsecond, hle⟩ :=
    (rounds_ofInt m).exists_place_le (rounds_ofInt n) (by exact_mod_cast h)
  obtain rfl := Option.some.inj (hm.symm.trans hfirst)
  obtain rfl := Option.some.inj (hn.symm.trans hsecond)
  exact hle

/-- **Integers compared as numbers of the format.** They compare as integers, but for different
ones that are rounded to the same number, which are equal then. -/
theorem compare?_ofInt (m n : Int) : (ofInt m).compare? (ofInt n) =
    some (if ofInt m = ofInt n then .eq else compare m n) := by
  obtain ⟨place, other, hplace, hother⟩ : ∃ place other, (ofInt m).place? = some place ∧
      (ofInt n).place? = some other := by
    obtain ⟨place, -, hplace, -⟩ := (rounds_ofInt m).exists_place_le (rounds_ofInt m) le_rfl
    obtain ⟨other, -, hother, -⟩ := (rounds_ofInt n).exists_place_le (rounds_ofInt n) le_rfl
    exact ⟨place, other, hplace, hother⟩
  rw [compare?_of_place hplace hother, Option.some.injEq]
  by_cases hsame : ofInt m = ofInt n
  · obtain rfl : place = other := by
      rw [hsame, hother] at hplace
      exact (Option.some.inj hplace).symm
    rw [if_pos hsame, compare_eq_iff_eq.2 rfl]
  · have hne : place ≠ other := by
      rintro rfl
      exact hsame (ofInt_eq_of_place_eq (hplace.trans hother.symm))
    rw [if_neg hsame]
    rcases Int.lt_trichotomy m n with hlt | rfl | hgt
    · rw [compare_lt_iff_lt.2 hlt, compare_lt_iff_lt]
      exact lt_of_le_of_ne (place_le_of_le hplace hother hlt.le) hne
    · exact absurd rfl hsame
    · rw [compare_gt_iff_gt.2 hgt, compare_gt_iff_gt]
      exact lt_of_le_of_ne (place_le_of_le hother hplace hgt.le) hne.symm

section Shared

variable {k l rank : Nat}

/-- Below `2 ^ 53` natural numbers have a rank of their own. -/
theorem NearestMagnitude.eq_of_lt (hk : NearestMagnitude k rank) (hl : NearestMagnitude l rank)
    (hlt : k < 2 ^ 53) : k = l := by
  obtain ⟨exact, hexact⟩ := exists_magnitude_eq_natCast hlt.le
  obtain rfl := (hexact ▸ nearestMagnitude_magnitude exact).unique hk
  rcases Nat.lt_or_ge (2 ^ 53) l with hlarge | hsmall
  · -- the other one is at least as large as the magnitude `2 ^ 53`
    obtain ⟨bound, hbound⟩ := exists_magnitude_eq_natCast (k := 2 ^ 53) le_rfl
    have hmono := (nearestMagnitude_magnitude bound).mono hl
      (by rw [hbound]; exact_mod_cast hlarge.le)
    have hle := magnitude_strictMono.monotone hmono
    rw [hbound, hexact] at hle
    have : 2 ^ 53 ≤ k := by exact_mod_cast hle
    omega
  · obtain ⟨other, hother⟩ := exists_magnitude_eq_natCast hsmall
    obtain rfl := (hother ▸ nearestMagnitude_magnitude other).unique hl
    exact_mod_cast hexact.symm.trans hother

/-- In 64 bits the multiples of 1024 are magnitudes, so the nearest one is at most 512 away. -/
theorem NearestMagnitude.abs_sub_le (h : NearestMagnitude k rank) (hk : k ≤ 2 ^ 63) :
    |(k : ℚ) - magnitude rank| ≤ 512 := by
  obtain ⟨steps, hsteps⟩ : ∃ steps, (k + 512) / 1024 = steps := ⟨_, rfl⟩
  obtain ⟨other, hother⟩ := exists_magnitude_eq (show steps ≤ 2 ^ 53 by omega) 10
  have hbounds : steps * 1024 ≤ k + 512 ∧ k ≤ steps * 1024 + 512 := by omega
  have hlow : (steps * 1024 : ℚ) ≤ k + 512 := by exact_mod_cast hbounds.1
  have hhigh : (k : ℚ) ≤ steps * 1024 + 512 := by exact_mod_cast hbounds.2
  refine (h.le other).trans ?_
  rw [hother, abs_le]
  norm_num
  constructor <;> linarith

/-- Up to 64 bits the nearest magnitude is a finite one. -/
theorem NearestMagnitude.lt_magnitudes (h : NearestMagnitude k rank) (hk : k ≤ 2 ^ 63) :
    rank < magnitudes := by
  obtain ⟨bound, hfinite, hbound⟩ := exists_magnitude_eq_two_pow (show 63 < 1024 by decide)
  refine (h.mono (nearestMagnitude_magnitude bound) ?_).trans_lt hfinite
  rw [hbound]
  exact_mod_cast hk

/-- **Integers rounded to the same number.** Different integers of 64 bits that are rounded to the
same number are both beyond `2 ^ 53` and at most 1024 apart. -/
theorem bounds_of_ofInt_eq (h : ofInt m = ofInt n) (hne : m ≠ n) (hm : m.natAbs ≤ 2 ^ 63)
    (hn : n.natAbs ≤ 2 ^ 63) :
    2 ^ 53 ≤ m.natAbs ∧ 2 ^ 53 ≤ n.natAbs ∧ (m - n).natAbs ≤ 1024 := by
  obtain ⟨place, -, hplace, -⟩ := (rounds_ofInt m).exists_place_le (rounds_ofInt m) le_rfl
  obtain ⟨hsign, rank, other, hrank, hother, hmin, -⟩ :=
    sign_eq_of_place_eq hplace (h ▸ hplace)
  have hfinite := hrank.lt_magnitudes hm
  have hfinite' := hother.lt_magnitudes hn
  obtain rfl : rank = other := by omega
  have hdifferent : m.natAbs ≠ n.natAbs := by omega
  refine ⟨?_, ?_, ?_⟩
  · by_contra hsmall
    exact hdifferent (hrank.eq_of_lt hother (by omega))
  · by_contra hsmall
    exact hdifferent (hother.eq_of_lt hrank (by omega)).symm
  · have hapart : |(m.natAbs : ℚ) - n.natAbs| ≤ 1024 :=
      calc
        |(m.natAbs : ℚ) - n.natAbs| ≤
            |(m.natAbs : ℚ) - magnitude rank| + |magnitude rank - n.natAbs| := abs_sub_le _ _ _
        _ ≤ 512 + 512 := by
          rw [abs_sub_comm (magnitude rank)]
          exact add_le_add (hrank.abs_sub_le hm) (hother.abs_sub_le hn)
        _ = 1024 := by norm_num
    have hint : |(m.natAbs : Int) - n.natAbs| ≤ 1024 := by exact_mod_cast hapart
    rw [abs_le] at hint
    omega

end Shared

end Bookkeeping.Binary64
