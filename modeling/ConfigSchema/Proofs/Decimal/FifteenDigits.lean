import ConfigSchema.Proofs.Decimal.Plain

/-!
Decimals of up to fifteen digits. Where doubles have all of their 53 bits, the interval of the
numbers that round to a double is narrower than a step of the grid of fifteen digits, so it holds at
most one point of the grid. Main statement: `Digits.exists_value_eq_pointValue`, a number of up to
fifteen digits before and after the point is what the shortest digits of some double stand for.
-/

namespace ConfigSchema

namespace Double

open Digits (roundingInterval)

/-- What lies between a number that rounds to a double and that double rounds to it, too. -/
theorem RoundsTo.of_between {x : Double} (h : x.isZero = false) {v w : ℚ} (hv : x.RoundsTo v)
    (hw : v ≤ w ∧ w * unitsInOne ≤ x.magnitude ∨ w ≤ v ∧ x.magnitude ≤ w * unitsInOne) :
    x.RoundsTo w := by
  have hunits : (0 : ℚ) < unitsInOne := Nat.cast_pos.2 unitsInOne_pos
  have hbelow : ((roundingInterval x).1 : ℚ) < 4 * x.magnitude := by
    have hmagnitude : 0 < x.magnitude := Nat.mul_pos (significand_pos h) x.step_pos
    have hstep := x.step_pos
    have hlt : (roundingInterval x).1 < 4 * x.magnitude := by
      unfold roundingInterval
      dsimp only
      split <;> omega
    exact_mod_cast hlt
  have habove : 4 * (x.magnitude : ℚ) < (roundingInterval x).2 :=
    mod_cast Nat.lt_add_of_pos_right (Nat.mul_pos (by decide) x.step_pos)
  have hmul : ∀ {v w : ℚ}, v ≤ w → 4 * v * unitsInOne ≤ 4 * w * unitsInOne := fun h =>
    mul_le_mul_of_nonneg_right (mul_le_mul_of_nonneg_left h (by norm_num)) hunits.le
  unfold RoundsTo at hv ⊢
  rcases hw with ⟨hle, hw⟩ | ⟨hle, hw⟩
  · have hle := hmul hle
    split
    next heven =>
      rw [if_pos heven] at hv
      constructor <;> linarith
    next hodd =>
      rw [if_neg hodd] at hv
      constructor <;> linarith
  · have hle := hmul hle
    split
    next heven =>
      rw [if_pos heven] at hv
      constructor <;> linarith
    next hodd =>
      rw [if_neg hodd] at hv
      constructor <;> linarith

/-- Numbers that are not very small round to doubles with all of their bits. -/
theorem RoundsTo.normal {x : Double} {v : ℚ} (h : x.RoundsTo v) (hv : 1 ≤ v * 10 ^ 15) :
    x.exponent.val ≠ 0 := by
  intro hzero
  have hsmall : (roundingInterval x).2 ≤ 4 * 4503599627370496 := by
    have hsignificand : x.significand = x.fraction.val := if_pos hzero
    have hstep : x.step = 1 := by rw [step, hzero]
    have hfraction := x.fraction.isLt
    rw [roundingInterval_eq, hsignificand, hstep]
    omega
  have hsmall : ((roundingInterval x).2 : ℚ) ≤ 4 * 4503599627370496 := by exact_mod_cast hsmall
  have hlarge : 2 ^ 120 ≤ unitsInOne := by
    unfold unitsInOne
    generalize hn : 1074 = n
    exact Nat.pow_le_pow_right (by decide) (by omega)
  have hlarge : (2 ^ 120 : ℚ) ≤ unitsInOne := by exact_mod_cast hlarge
  have hunits : (unitsInOne : ℚ) ≤ v * unitsInOne * 10 ^ 15 := by
    calc (unitsInOne : ℚ)
      _ = 1 * unitsInOne := (one_mul _).symm
      _ ≤ v * 10 ^ 15 * unitsInOne := mul_le_mul_of_nonneg_right hv (Nat.cast_nonneg _)
      _ = v * unitsInOne * 10 ^ 15 := by ring
  have hhigh := h.le.2
  generalize (unitsInOne : ℚ) = units at *
  norm_num at hlarge
  linarith

end Double

namespace Digits

open Double (unitsInOne digitCount)

theorem lt_zpow_leadingExponent {num den : Nat} (hnum : 0 < num) (hden : 0 < den) :
    (num : ℚ) < 10 ^ (leadingExponent num den + 1) * den := by
  unfold leadingExponent
  split
  case isTrue h =>
    have hlt : num < 10 ^ digitCount (num / den) * den :=
      (Nat.div_lt_iff_lt_mul hden).1 (lt_pow_digitCount (num / den))
    rw [sub_add_cancel, zpow_natCast]
    exact_mod_cast hlt
  case isFalse h =>
    have hpos : 0 < (den - 1) / num := Nat.div_pos (by omega) hnum
    have hle : num * 10 ^ (digitCount ((den - 1) / num) - 1) < den := by
      have := (Nat.le_div_iff_mul_le hnum).1 (pow_digitCount_le hpos)
      rw [Nat.mul_comm]
      omega
    have hexponent : -(digitCount ((den - 1) / num) : ℤ) + 1 =
        -((digitCount ((den - 1) / num) - 1 : ℕ) : ℤ) := by
      have : 0 < digitCount ((den - 1) / num) := Nat.length_toDigits_pos
      omega
    rw [hexponent, zpow_neg, zpow_natCast, lt_inv_mul_iff₀ (by positivity), mul_comm]
    exact_mod_cast hle

section Normal

variable {x : Double} (hnormal : x.exponent.val ≠ 0)

include hnormal

theorem isZero_of_normal : x.isZero = false := by
  simp [Double.isZero, hnormal]

theorem magnitude_pos : 0 < x.magnitude :=
  Nat.mul_pos (Double.significand_pos (isZero_of_normal hnormal)) x.step_pos

theorem step_le_of_normal : 4503599627370496 * x.step ≤ x.magnitude := by
  refine Nat.mul_le_mul_right _ ?_
  rw [Double.significand, if_neg hnormal]
  exact Nat.le_add_right ..

/-- The steps of doubles are shorter than those of the grid of fifteen digits. -/
theorem step_lt_grid :
    (x.step : ℚ) < 10 ^ (leadingExponent x.magnitude unitsInOne - 14) * unitsInOne := by
  have hlt := lt_zpow_leadingExponent (magnitude_pos hnormal) Double.unitsInOne_pos
  have hstep : (4503599627370496 * x.step : ℚ) ≤ x.magnitude := by
    exact_mod_cast step_le_of_normal hnormal
  have hgrid : (10 : ℚ) ^ (leadingExponent x.magnitude unitsInOne + 1) * unitsInOne =
      10 ^ 15 * (10 ^ (leadingExponent x.magnitude unitsInOne - 14) * unitsInOne) := by
    have hexponent : leadingExponent x.magnitude unitsInOne + 1 =
        (15 : ℕ) + (leadingExponent x.magnitude unitsInOne - 14) := by omega
    rw [hexponent, zpow_add₀ (by norm_num), zpow_natCast, mul_assoc]
  have hpos : (0 : ℚ) < 10 ^ (leadingExponent x.magnitude unitsInOne - 14) * unitsInOne :=
    mul_pos (by positivity) (Nat.cast_pos.2 Double.unitsInOne_pos)
  rw [hgrid] at hlt
  by_contra hle
  linarith

/-- Two points of the grid of fifteen digits do not round to the same double. -/
theorem eq_of_roundsTo_grid {a b : Nat}
    (ha : x.RoundsTo (a * 10 ^ (leadingExponent x.magnitude unitsInOne - 14)))
    (hb : x.RoundsTo (b * 10 ^ (leadingExponent x.magnitude unitsInOne - 14))) : a = b := by
  wlog hlt : a < b generalizing a b
  · rcases lt_or_ge b a with hgt | hle
    · exact (this hb ha hgt).symm
    · omega
  have hgrid := step_lt_grid hnormal
  generalize (10 : ℚ) ^ (leadingExponent x.magnitude unitsInOne - 14) = g at *
  have hwidth : ((roundingInterval x).1 : ℚ) + x.step * (2 + x.reach) = (roundingInterval x).2 :=
    mod_cast Double.roundingInterval_width (isZero_of_normal hnormal)
  have hreach : (x.step : ℚ) * (2 + x.reach) ≤ 4 * x.step := by
    have hle : x.step * (2 + x.reach) ≤ 4 * x.step := by
      rw [Nat.mul_comm 4]
      exact Nat.mul_le_mul_left _ (Nat.add_le_add_left x.reach_le 2)
    exact_mod_cast hle
  have hlow := ha.le.1
  have hhigh := hb.le.2
  have hdistance : (a + 1 : ℚ) * (g * unitsInOne) ≤ b * (g * unitsInOne) := by
    refine mul_le_mul_of_nonneg_right (by exact_mod_cast hlt) ?_
    exact (Nat.cast_nonneg x.step).trans hgrid.le
  linarith

/-- A decimal of fifteen digits that rounds to a double is on its grid of fifteen digits: below the
power of ten with which the grid begins there would be a gap. -/
theorem exists_eq_grid {c : Nat} {k : Int} (hc : c < 10 ^ 15) (h : x.RoundsTo (c * 10 ^ k)) :
    ∃ a : Nat, (c * 10 ^ k : ℚ) = a * 10 ^ (leadingExponent x.magnitude unitsInOne - 14) := by
  have hleading := zpow_leadingExponent_le (magnitude_pos hnormal) Double.unitsInOne_pos
  have hstep : (4503599627370496 * x.step : ℚ) ≤ x.magnitude := by
    exact_mod_cast step_le_of_normal hnormal
  rcases le_or_gt (leadingExponent x.magnitude unitsInOne - 14) k with hle | hlt
  · obtain ⟨n, hn⟩ := Int.le.dest hle
    refine ⟨c * 10 ^ n, ?_⟩
    rw [← hn, zpow_add₀ (by norm_num), zpow_natCast]
    push_cast
    ring
  · have hpos : (0 : ℚ) < 10 ^ k * unitsInOne :=
      mul_pos (by positivity) (Nat.cast_pos.2 Double.unitsInOne_pos)
    have habove : 10 ^ 15 * (10 ^ k * unitsInOne) ≤ (x.magnitude : ℚ) := by
      refine le_trans ?_ hleading
      rw [← mul_assoc, ← zpow_natCast, ← zpow_add₀ (by norm_num)]
      exact mul_le_mul_of_nonneg_right (zpow_le_zpow_right₀ (by norm_num) (by omega))
        (Nat.cast_nonneg _)
    have hbelow : (c : ℚ) * (10 ^ k * unitsInOne) ≤ (10 ^ 15 - 1) * (10 ^ k * unitsInOne) := by
      refine mul_le_mul_of_nonneg_right ?_ hpos.le
      rw [le_sub_iff_add_le]
      exact_mod_cast hc
    have hlow : 4 * (x.magnitude : ℚ) ≤ 4 * (c * (10 ^ k * unitsInOne)) + 2 * x.step := by
      have hinterval : 4 * x.magnitude ≤ (roundingInterval x).1 + 2 * x.step := by
        unfold roundingInterval
        dsimp only
        split <;> omega
      have hinterval : (4 * x.magnitude : ℚ) ≤ (roundingInterval x).1 + 2 * x.step := by
        exact_mod_cast hinterval
      have := h.le.1
      linarith
    linarith

/-- No fewer digits than those of a decimal of fifteen digits read back as its double. -/
theorem value_shortest_eq {c : Nat} {k : Int} (hc : c < 10 ^ 15) (h : x.RoundsTo (c * 10 ^ k)) :
    (shortest x).value = c * 10 ^ k := by
  have hzero := isZero_of_normal hnormal
  obtain ⟨a, ha⟩ := exists_eq_grid hnormal hc h
  have hgrid : onGrid x 15 ≠ none := by
    intro hnone
    have hfifteen : leadingExponent x.magnitude unitsInOne - (15 : ℕ) + 1 =
        leadingExponent x.magnitude unitsInOne - 14 := by omega
    obtain ⟨b, hlow, hhigh, hnlow, hnhigh⟩ := exists_neighbours_of_onGrid_eq_none hfifteen hnone
    have hpos : (0 : ℚ) ≤ 10 ^ (leadingExponent x.magnitude unitsInOne - 14) := by positivity
    rw [ha] at h
    generalize (10 : ℚ) ^ (leadingExponent x.magnitude unitsInOne - 14) = g at *
    -- one of the neighbours is between the decimal and the double
    rcases Nat.lt_or_ge b a with hlt | hle
    · refine hnhigh (h.of_between hzero (.inr ⟨mul_le_mul_of_nonneg_right ?_ hpos, hhigh.le⟩))
      exact_mod_cast hlt
    · refine hnlow (h.of_between hzero (.inl ⟨mul_le_mul_of_nonneg_right ?_ hpos, hlow⟩))
      exact_mod_cast hle
  obtain ⟨n, hn, hshortest⟩ := exists_onGrid_eq_shortest hzero (by decide) (by decide) hgrid
  obtain ⟨b, hb, hback⟩ := exists_ofScaled_of_onGrid hshortest
  have hvalue : (shortest x).value =
      (b * 10 ^ (15 - n) : ℕ) * 10 ^ (leadingExponent x.magnitude unitsInOne - 14) := by
    have hexponent : leadingExponent x.magnitude unitsInOne - n + 1 =
        (15 - n : ℕ) + (leadingExponent x.magnitude unitsInOne - 14) := by omega
    rw [hb, value_ofScaled, hexponent, zpow_add₀ (by norm_num), zpow_natCast]
    push_cast
    ring
  have hround := roundsTo_shortest x
  rw [hvalue] at hround ⊢
  rw [ha] at h ⊢
  rw [eq_of_roundsTo_grid hnormal hround h]

end Normal

/-- Numbers of up to fifteen digits are what the shortest digits of doubles stand for. -/
theorem exists_value_eq_pointValue {major minor : Nat}
    (h : digitCount major + digitCount minor ≤ 15) :
    ∃ x, (shortest x).value = pointValue major minor := by
  have hfew : 10 ^ digitCount minor * major + minor < 10 ^ 15 :=
    calc 10 ^ digitCount minor * major + minor
      _ < 10 ^ digitCount minor * (major + 1) := by
        rw [Nat.mul_succ]
        exact Nat.add_lt_add_left (lt_pow_digitCount minor) _
      _ ≤ 10 ^ digitCount minor * 10 ^ digitCount major :=
        Nat.mul_le_mul_left _ (lt_pow_digitCount major)
      _ ≤ 10 ^ 15 := by
        rw [← Nat.pow_add]
        exact Nat.pow_le_pow_right (by decide) (by omega)
  have hmajor : major < 10 ^ 250 := (lt_pow_digitCount major).trans_le
    (Nat.pow_le_pow_right (by decide) (by omega))
  obtain ⟨x, hround, -⟩ := ExtendedDouble.exists_text_ofDecimal hmajor minor
  rw [pointValue_eq] at hround ⊢
  generalize 10 ^ digitCount minor * major + minor = c at *
  refine ⟨x, ?_⟩
  rcases Nat.eq_zero_or_pos c with rfl | hpos
  · rw [Nat.cast_zero, zero_mul] at hround ⊢
    simp [shortest, Double.roundsTo_zero_iff.1 hround, value, Nat.ofDigitChars]
  · refine value_shortest_eq (hround.normal ?_) hfew hround
    have hone : (1 : ℚ) ≤ c := by exact_mod_cast hpos
    have hscale : (1 : ℚ) ≤ 10 ^ (-(digitCount minor : ℤ)) * 10 ^ 15 := by
      rw [← zpow_natCast, ← zpow_add₀ (by norm_num)]
      exact one_le_zpow₀ (by norm_num) (by omega)
    rw [mul_assoc]
    exact one_le_mul_of_one_le_of_one_le hone hscale

end Digits

end ConfigSchema
