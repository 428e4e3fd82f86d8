import ConfigSchema.Decimal.Shortest
import Mathlib.Order.Fin.Basic
import Mathlib.Tactic.Linarith
import Mathlib.Tactic.Ring

/-!
The numbers that round to a double. The intervals of doubles in a row meet in one point, which goes
to the one with the even significand, so no number rounds to two doubles. Main statement:
`Double.eq_of_roundsTo`.
-/

namespace ConfigSchema

open Digits (roundingInterval)

namespace Double

/-- How far below a double the numbers round to it, in quarters of a step. Below the least double
of an exponent the steps are half as long. -/
def reach (x : Double) : Nat := if x.fraction.val = 0 ∧ 1 < x.exponent.val then 1 else 2

theorem reach_le (x : Double) : x.reach ≤ 2 := by
  unfold reach
  split <;> decide

theorem unitsInOne_pos : 0 < unitsInOne := by
  unfold unitsInOne
  generalize 1074 = n
  exact Nat.pow_pos (by decide)

theorem step_pos (x : Double) : 0 < x.step := Nat.pow_pos (by decide)

theorem significand_lt (x : Double) : x.significand < 9007199254740992 := by
  have hfraction := x.fraction.isLt
  unfold significand
  split <;> omega

theorem significand_pos {x : Double} (h : x.isZero = false) : 0 < x.significand := by
  rw [isZero, Bool.and_eq_false_iff, decide_eq_false_iff_not, decide_eq_false_iff_not] at h
  unfold significand
  split <;> omega

theorem roundingInterval_eq (x : Double) : roundingInterval x =
    (x.step * (4 * x.significand - x.reach), x.step * (4 * x.significand + 2)) := by
  have hbelow : (if x.fraction.val = 0 ∧ 1 < x.exponent.val then x.step else 2 * x.step) =
      x.step * x.reach := by
    unfold reach
    split <;> ring
  rw [roundingInterval, hbelow, magnitude, Nat.mul_sub]
  congr 1 <;> ring_nf

theorem roundingInterval_width {x : Double} (h : x.isZero = false) :
    (roundingInterval x).1 + x.step * (2 + x.reach) = (roundingInterval x).2 := by
  have hpos := significand_pos h
  have hreach := x.reach_le
  rw [roundingInterval_eq, ← Nat.mul_add]
  congr 1
  omega

/-- The interval of a double is wider than a step of the grid of seventeen digits. -/
theorem significand_lt_width (x : Double) : 4 * x.significand < (2 + x.reach) * 10 ^ 16 := by
  have hlt := x.significand_lt
  unfold reach
  split
  case isTrue h =>
    have hleast : x.significand = 4503599627370496 + x.fraction.val := if_neg (by omega)
    omega
  case isFalse => omega

/-- The order of the absolute values. -/
def Below (x y : Double) : Prop :=
  x.exponent < y.exponent ∨ x.exponent = y.exponent ∧ x.fraction < y.fraction

/-- The steps of a double are as long as those of one below it, or longer by a power of two. -/
theorem step_eq_mul {x y : Double} (h : x.exponent ≤ y.exponent) :
    y.step = x.step * 2 ^ (y.exponent.val - 1 - (x.exponent.val - 1)) := by
  have hle : x.exponent.val - 1 ≤ y.exponent.val - 1 := Nat.sub_le_sub_right h 1
  rw [step, step]
  exact (pow_mul_pow_sub 2 hle).symm

/-- A double above another one of the same exponent is not the least of its exponent. -/
theorem ends_of_fraction_lt {x y : Double} (he : x.exponent = y.exponent)
    (hf : x.fraction < y.fraction) :
    4 * x.significand + 2 ≤ 4 * y.significand - y.reach ∧
      (4 * x.significand + 2 = 4 * y.significand - y.reach →
        x.significand % 2 = 1 ∨ y.significand % 2 = 1) := by
  have hlt : x.fraction.val < y.fraction.val := hf
  have hreach : y.reach = 2 := if_neg fun h => by omega
  have hdistance : y.significand = x.significand + (y.fraction.val - x.fraction.val) := by
    rw [significand, significand, he]
    split <;> omega
  omega

/-- The doubles below the least one of an exponent have smaller significands than those below the
next power of two, and the largest of them is odd. -/
theorem ends_of_exponent_lt {x y : Double} (h : x.exponent < y.exponent) :
    4 * x.significand + 2 ≤
        2 ^ (y.exponent.val - 1 - (x.exponent.val - 1)) * (4 * y.significand - y.reach) ∧
      (4 * x.significand + 2 =
        2 ^ (y.exponent.val - 1 - (x.exponent.val - 1)) * (4 * y.significand - y.reach) →
          x.significand % 2 = 1) := by
  have hlt : x.exponent.val < y.exponent.val := h
  have hx := x.significand_lt
  have hy : y.significand = 4503599627370496 + y.fraction.val := if_neg (by omega)
  cases hd : y.exponent.val - 1 - (x.exponent.val - 1) with
  | zero =>
      -- the last double without a leading one, and the first one that has it
      have hsmall : x.significand = x.fraction.val := if_pos (by omega)
      have hreach : y.reach = 2 := if_neg fun h => by omega
      have hfraction := x.fraction.isLt
      rw [pow_zero, one_mul]
      omega
  | succ d =>
      have hlow : 18014398509481983 ≤ 4 * y.significand - y.reach := by
        unfold reach
        split <;> omega
      have hpow : 4 * y.significand - y.reach ≤ 2 ^ d * (4 * y.significand - y.reach) :=
        Nat.le_mul_of_pos_left _ (Nat.pow_pos (by decide))
      rw [pow_succ', mul_assoc]
      omega

/-- The interval of a double begins where that of a lower one ends or above. If they meet, one of
the significands is odd. -/
theorem ends_of_below {x y : Double} (h : x.Below y) :
    (roundingInterval x).2 ≤ (roundingInterval y).1 ∧
      ((roundingInterval x).2 = (roundingInterval y).1 →
        x.significand % 2 = 1 ∨ y.significand % 2 = 1) := by
  rw [roundingInterval_eq, roundingInterval_eq]
  rcases h with h | ⟨he, hf⟩
  · obtain ⟨hle, heq⟩ := ends_of_exponent_lt h
    rw [step_eq_mul h.le, mul_assoc]
    exact ⟨Nat.mul_le_mul_left _ hle, fun h => .inl (heq (Nat.eq_of_mul_eq_mul_left x.step_pos h))⟩
  · obtain ⟨hle, heq⟩ := ends_of_fraction_lt he hf
    have hstep : y.step = x.step := by rw [step, step, he]
    rw [hstep]
    exact ⟨Nat.mul_le_mul_left _ hle, fun h => heq (Nat.eq_of_mul_eq_mul_left x.step_pos h)⟩

/-- The number rounds to the absolute value of the double. The ends of the interval go to doubles
with an even significand. -/
def RoundsTo (x : Double) (v : ℚ) : Prop :=
  if x.significand % 2 = 0 then
    (roundingInterval x).1 ≤ 4 * v * unitsInOne ∧ 4 * v * unitsInOne ≤ (roundingInterval x).2
  else
    (roundingInterval x).1 < 4 * v * unitsInOne ∧ 4 * v * unitsInOne < (roundingInterval x).2

theorem RoundsTo.le {x : Double} {v : ℚ} (h : x.RoundsTo v) :
    (roundingInterval x).1 ≤ 4 * v * unitsInOne ∧ 4 * v * unitsInOne ≤ (roundingInterval x).2 := by
  unfold RoundsTo at h
  split at h
  · exact h
  · exact ⟨h.1.le, h.2.le⟩

theorem roundsTo_of_lt {x : Double} {v : ℚ} (hlow : (roundingInterval x).1 < 4 * v * unitsInOne)
    (hhigh : 4 * v * unitsInOne < (roundingInterval x).2) : x.RoundsTo v := by
  unfold RoundsTo
  split
  · exact ⟨hlow.le, hhigh.le⟩
  · exact ⟨hlow, hhigh⟩

theorem RoundsTo.lt {x : Double} {v : ℚ} (h : x.RoundsTo v) (hodd : x.significand % 2 = 1) :
    (roundingInterval x).1 < 4 * v * unitsInOne ∧ 4 * v * unitsInOne < (roundingInterval x).2 := by
  rw [RoundsTo, if_neg (by omega)] at h
  exact h

/-- No number rounds to two doubles. -/
theorem RoundsTo.not_below {x y : Double} {v : ℚ} (hx : x.RoundsTo v) (hy : y.RoundsTo v) :
    ¬x.Below y := by
  intro h
  obtain ⟨hends, hmeet⟩ := ends_of_below h
  have hends : ((roundingInterval x).2 : ℚ) ≤ (roundingInterval y).1 := Nat.cast_le.2 hends
  have hsame : (roundingInterval x).2 = (roundingInterval y).1 := by
    have hle := hx.le.2
    have hge := hy.le.1
    exact_mod_cast (hends.antisymm (hge.trans hle) :
      ((roundingInterval x).2 : ℚ) = (roundingInterval y).1)
  rcases hmeet hsame with hodd | hodd
  · linarith [(hx.lt hodd).2, hy.le.1]
  · linarith [hx.le.2, (hy.lt hodd).1]

theorem eq_of_roundsTo {x y : Double} {v : ℚ} (hx : x.RoundsTo v) (hy : y.RoundsTo v)
    (hsign : x.negative = y.negative) : x = y := by
  have hexponent : x.exponent = y.exponent := le_antisymm
    (not_lt.1 fun h => hy.not_below hx (.inl h)) (not_lt.1 fun h => hx.not_below hy (.inl h))
  have hfraction : x.fraction = y.fraction := le_antisymm
    (not_lt.1 fun h => hy.not_below hx (.inr ⟨hexponent.symm, h⟩))
    (not_lt.1 fun h => hx.not_below hy (.inr ⟨hexponent, h⟩))
  obtain ⟨negative, exponent, fraction⟩ := x
  obtain ⟨negative', exponent', fraction'⟩ := y
  simp only at hsign hexponent hfraction
  subst hsign hexponent hfraction
  rfl

theorem roundsTo_zero_iff {x : Double} : x.RoundsTo 0 ↔ x.isZero = true := by
  constructor
  · intro h
    by_contra hne
    have hpos := significand_pos (Bool.not_eq_true _ ▸ hne)
    have hreach := x.reach_le
    have hlow : 0 < (roundingInterval x).1 := by
      rw [roundingInterval_eq]
      exact Nat.mul_pos x.step_pos (by omega)
    have hle := h.le.1
    rw [mul_zero, zero_mul] at hle
    exact absurd (Nat.cast_pos.2 hlow) (not_lt.2 hle)
  · intro h
    rw [isZero, Bool.and_eq_true, decide_eq_true_eq, decide_eq_true_eq] at h
    have hsignificand : x.significand = 0 := by rw [significand, if_pos h.1, h.2]
    rw [RoundsTo, if_pos (by rw [hsignificand]), roundingInterval_eq, hsignificand, mul_zero (4 : ℚ),
      zero_mul]
    simp

end Double

end ConfigSchema
