import ConfigSchema.Proofs.Decimal.Shortest

/-!
Rounding a quotient to a double. The quotient is scaled so that its integral part has 53 bits, or
fewer where the steps cannot get shorter, and rounded to an integer. Main statements:
`Double.roundsTo_ofRatio`, the quotient rounds to the double that comes out, and
`Double.roundsTo_ofDecimal` and `Double.exists_ofDecimal`, the same for decimals of any exponent,
among which those that are not too large have a double.
-/

namespace ConfigSchema

/-- The quotient is at most half away from the rounded one, and less than that from an odd one. -/
theorem roundHalfEven_spec (num : Nat) {den : Nat} (h : 0 < den) :
    2 * roundHalfEven num den * den ≤ 2 * num + den ∧
      2 * num ≤ 2 * roundHalfEven num den * den + den ∧
      (roundHalfEven num den % 2 = 1 → 2 * roundHalfEven num den * den < 2 * num + den ∧
        2 * num < 2 * roundHalfEven num den * den + den) := by
  have hnum : num / den * den + num % den = num := Nat.div_add_mod' num den
  have hmod : num % den < den := Nat.mod_lt num h
  have hsame : 2 * (num / den) * den = 2 * (num / den * den) := Nat.mul_assoc ..
  have hnext : 2 * (num / den + 1) * den = 2 * (num / den * den) + 2 * den := by ring
  unfold roundHalfEven
  dsimp only
  split
  · rw [hsame]
    omega
  · split
    · rw [hnext]
      omega
    · split
      · rw [hsame]
        omega
      · rw [hnext]
        omega

namespace Double

open Digits (roundingInterval)

/-- The number of steps is nearest to a quarter of `w`, and even if another one is as near. -/
structure IsNearest (r : Nat) (step w : ℚ) : Prop where
  low : step * (4 * r - 2) ≤ w
  high : w ≤ step * (4 * r + 2)
  odd : r % 2 = 1 → step * (4 * r - 2) < w ∧ w < step * (4 * r + 2)

/-- A number rounds to a double whose significand is nearest to it. Below the least double of an
exponent it may only be half as far away. -/
theorem roundsTo_of_isNearest {x : Double} {v : ℚ} (hv : 0 ≤ v)
    (h : IsNearest x.significand x.step (4 * v * unitsInOne))
    (hleast : x.reach = 1 → x.significand % 2 = 0 ∧
      x.step * (4 * x.significand - 1) ≤ 4 * v * unitsInOne) : x.RoundsTo v := by
  have hupper : ((roundingInterval x).2 : ℚ) = x.step * (4 * x.significand + 2) := by
    rw [roundingInterval_eq]
    push_cast
    ring
  rcases Nat.eq_zero_or_pos x.significand with hzero | hpos
  · -- below zero there is nothing, so the interval ends there
    have hlower : ((roundingInterval x).1 : ℚ) = 0 := by
      rw [roundingInterval_eq, hzero]
      simp
    rw [RoundsTo, if_pos (by rw [hzero]), hlower, hupper]
    exact ⟨mul_nonneg (mul_nonneg (by norm_num) hv) (Nat.cast_nonneg _), h.high⟩
  · have hreach := x.reach_le
    have hlower : ((roundingInterval x).1 : ℚ) = x.step * (4 * x.significand - x.reach) := by
      rw [roundingInterval_eq, Nat.cast_mul, Nat.cast_sub (by omega)]
      push_cast
      ring
    rw [RoundsTo, hlower, hupper]
    obtain hone | htwo : x.reach = 1 ∨ x.reach = 2 := by
      unfold reach
      split <;> simp
    · rw [if_pos (hleast hone).1, hone, Nat.cast_one]
      exact ⟨(hleast hone).2, h.high⟩
    · rw [htwo]
      split
      next => exact ⟨h.low, h.high⟩
      next hodd => exact h.odd (by omega)

section Parts

variable {negative : Bool} {r s : Nat} {x : Double} {v : ℚ}

/-- With fewer than 53 bits the steps are the shortest ones. -/
theorem roundsTo_subnormal (hr : r < 4503599627370496) (hv : 0 ≤ v)
    (h : IsNearest r 1 (4 * v * unitsInOne)) : RoundsTo ⟨negative, 0, ⟨r, hr⟩⟩ v := by
  have hsignificand : significand ⟨negative, 0, ⟨r, hr⟩⟩ = r := if_pos rfl
  have hstep : ((step ⟨negative, 0, ⟨r, hr⟩⟩ : Nat) : ℚ) = 1 := by simp [step]
  refine roundsTo_of_isNearest hv (by rw [hsignificand, hstep]; exact h) fun hreach => ?_
  simp [reach] at hreach

/-- A significand of 53 bits is kept without its leading one. -/
theorem roundsTo_normal (he : s + 1 < 2047) (hr : 4503599627370496 ≤ r)
    (hr' : r < 9007199254740992) (hv : 0 ≤ v)
    (h : IsNearest r (2 ^ s) (4 * v * unitsInOne))
    (hlarge : s = 0 ∨ 2 ^ s * 4503599627370496 ≤ v * unitsInOne) :
    RoundsTo ⟨negative, ⟨s + 1, he⟩, Fin.ofNat 4503599627370496 r⟩ v := by
  have hfraction : (Fin.ofNat 4503599627370496 r).val = r - 4503599627370496 := by
    rw [Fin.val_ofNat]
    omega
  generalize Fin.ofNat 4503599627370496 r = fraction at *
  have hsignificand : significand ⟨negative, ⟨s + 1, he⟩, fraction⟩ = r := by
    rw [significand, if_neg (by simp), hfraction]
    omega
  have hstep : ((step ⟨negative, ⟨s + 1, he⟩, fraction⟩ : Nat) : ℚ) = 2 ^ s := by simp [step]
  refine roundsTo_of_isNearest hv (by rw [hsignificand, hstep]; exact h) fun hreach => ?_
  -- the least double of its exponent, and the number is not below it
  have hends : fraction.val = 0 ∧ 1 < s + 1 := by
    by_contra hne
    rw [reach, if_neg hne] at hreach
    cases hreach
  obtain rfl : r = 4503599627370496 := by omega
  have hlarge := hlarge.resolve_left (by omega)
  rw [hsignificand, hstep]
  refine ⟨rfl, ?_⟩
  have hpos : (0 : ℚ) ≤ 2 ^ s := by positivity
  push_cast
  linarith

/-- Rounding up to 54 bits leads to the least double of the next exponent. -/
theorem roundsTo_carry (he : s + 1 + 1 < 2047) (hr : 9007199254740992 ≤ r) (hv : 0 ≤ v)
    (h : IsNearest r (2 ^ s) (4 * v * unitsInOne))
    (hsmall : v * unitsInOne < 2 ^ s * 9007199254740992) :
    RoundsTo ⟨negative, ⟨s + 1 + 1, he⟩, Fin.ofNat 4503599627370496 (r / 2)⟩ v := by
  have hpos : (0 : ℚ) < 2 ^ s := by positivity
  obtain rfl : r = 9007199254740992 := by
    have hle : (2 : ℚ) ^ s * (4 * r - 2) < 2 ^ s * (4 * 9007199254740992) := by
      linarith [h.low]
    have hle : (4 * r - 2 : ℚ) < 4 * 9007199254740992 := lt_of_mul_lt_mul_left hle hpos.le
    have hle : (4 * r : ℚ) < 4 * 9007199254740992 + 2 := by linarith
    have : 4 * r < 4 * 9007199254740992 + 2 := by exact_mod_cast hle
    omega
  have hfraction : Fin.ofNat 4503599627370496 (9007199254740992 / 2) = 0 := by decide
  rw [hfraction]
  have hsignificand : significand ⟨negative, ⟨s + 1 + 1, he⟩, 0⟩ = 4503599627370496 := by
    rw [significand, if_neg (by simp)]
    rfl
  have hstep : ((step ⟨negative, ⟨s + 1 + 1, he⟩, 0⟩ : Nat) : ℚ) = 2 ^ s * 2 := by
    simp [step, pow_succ]
  have hlow := h.low
  push_cast at hlow
  refine roundsTo_of_isNearest hv ⟨?_, ?_, ?_⟩ fun _ => ⟨by rw [hsignificand], ?_⟩
  · rw [hsignificand, hstep]
    push_cast
    linarith
  · rw [hsignificand, hstep]
    push_cast
    linarith
  · rw [hsignificand]
    intro hodd
    omega
  · rw [hsignificand, hstep]
    push_cast
    linarith

/-- A rounded number of steps makes the double to which the number rounds. -/
theorem roundsTo_ofParts (hx : ofParts negative r s = some x) (hv : 0 ≤ v)
    (h : IsNearest r (2 ^ s) (4 * v * unitsInOne))
    (hlarge : s = 0 ∨ 2 ^ s * 4503599627370496 ≤ v * unitsInOne)
    (hsmall : v * unitsInOne < 2 ^ s * 9007199254740992) : x.RoundsTo v := by
  rcases lt_or_ge r 4503599627370496 with hr | hr
  · have hs : s = 0 := by
      rcases hlarge with hs | hlarge
      · exact hs
      · have hpos : (0 : ℚ) < 2 ^ s := by positivity
        have hle : (2 : ℚ) ^ s * (4 * 4503599627370496) ≤ 2 ^ s * (4 * r + 2) := by
          linarith [h.high]
        have hle : (4 * 4503599627370496 : ℚ) ≤ 4 * r + 2 := le_of_mul_le_mul_left hle hpos
        have : 4 * 4503599627370496 ≤ 4 * r + 2 := by exact_mod_cast hle
        omega
    subst hs
    rw [ofParts, dif_pos hr] at hx
    cases hx
    rw [pow_zero] at h
    exact roundsTo_subnormal hr hv h
  · rw [ofParts, dif_neg (not_lt.2 hr)] at hx
    rcases lt_or_ge r 9007199254740992 with hr' | hr'
    · simp only [if_pos hr', Nat.add_zero, Nat.zero_add, Nat.div_one] at hx
      split at hx
      next he =>
        cases hx
        exact roundsTo_normal he hr hr' hv h hlarge
      next => cases hx
    · simp only [if_neg (not_lt.2 hr')] at hx
      split at hx
      next he =>
        cases hx
        exact roundsTo_carry he hr' hv h hsmall
      next => cases hx

end Parts

section Ratio

variable {negative : Bool} {num den : Nat}

theorem isNearest_roundHalfEven (hden : 0 < den) (s : Nat) :
    IsNearest (roundHalfEven (num * unitsInOne) (den * 2 ^ s)) (2 ^ s)
      (4 * (num / den) * unitsInOne) := by
  obtain ⟨hlow, hhigh, hodd⟩ := roundHalfEven_spec (num * unitsInOne)
    (Nat.mul_pos hden (Nat.pow_pos (by decide : 0 < 2)) : 0 < den * 2 ^ s)
  generalize roundHalfEven (num * unitsInOne) (den * 2 ^ s) = r at *
  have hpos : (0 : ℚ) < den := Nat.cast_pos.2 hden
  have hvalue : (num : ℚ) = num / den * den := (div_mul_cancel₀ _ hpos.ne').symm
  have hcast : ∀ {m n : Nat}, m ≤ n → (m : ℚ) ≤ n := Nat.cast_le.2
  have hcast' : ∀ {m n : Nat}, m < n → (m : ℚ) < n := Nat.cast_lt.2
  generalize unitsInOne = units at *
  generalize (num / den : ℚ) = v at *
  have hlow := hcast hlow
  have hhigh := hcast hhigh
  push_cast [hvalue] at hlow hhigh
  refine ⟨?_, ?_, fun h => ?_⟩
  · refine le_of_mul_le_mul_right ?_ hpos
    linarith
  · refine le_of_mul_le_mul_right ?_ hpos
    linarith
  · obtain ⟨hlow, hhigh⟩ := hodd h
    have hlow := hcast' hlow
    have hhigh := hcast' hhigh
    push_cast [hvalue] at hlow hhigh
    constructor
    · refine lt_of_mul_lt_mul_right ?_ hpos.le
      linarith
    · refine lt_of_mul_lt_mul_right ?_ hpos.le
      linarith

/-- A rounded quotient is a double to which the quotient rounds. -/
theorem roundsTo_ofRatio {x : Double} (hden : 0 < den)
    (hx : ofRatio negative num den = some x) : x.RoundsTo (num / den) := by
  have hpos : (0 : ℚ) < den := Nat.cast_pos.2 hden
  have hscaled : (num / den : ℚ) * unitsInOne = ((num * unitsInOne : ℕ) : ℚ) / den := by
    push_cast
    ring
  have hquotient := Nat.lt_log2_self (n := num * unitsInOne / den)
  have hnonneg : (0 : ℚ) ≤ num / den := div_nonneg (Nat.cast_nonneg _) (Nat.cast_nonneg _)
  refine roundsTo_ofParts hx hnonneg (isNearest_roundHalfEven hden _) ?_ ?_
  · by_cases hs : Nat.log2 (num * unitsInOne / den) - 52 = 0
    · exact .inl hs
    · refine .inr ?_
      have hne : num * unitsInOne / den ≠ 0 := by
        intro hzero
        rw [hzero] at hs
        exact hs rfl
      have hle := (Nat.log2_self_le hne).trans' (Nat.pow_le_pow_right (by decide)
        (by omega : Nat.log2 (num * unitsInOne / den) - 52 + 52 ≤ _))
      have hle := (Nat.le_div_iff_mul_le hden).1 hle
      rw [hscaled, le_div_iff₀ hpos]
      rw [pow_add] at hle
      exact_mod_cast hle
  · have hlt := hquotient.trans_le (Nat.pow_le_pow_right (by decide)
      (by omega : _ ≤ Nat.log2 (num * unitsInOne / den) - 52 + 53))
    have hlt := (Nat.div_lt_iff_lt_mul hden).1 hlt
    rw [hscaled, div_lt_iff₀ hpos]
    rw [pow_add] at hlt
    exact_mod_cast hlt

theorem exists_ofParts {r s : Nat} (h : s + 2 < 2047) : ∃ x, ofParts negative r s = some x := by
  unfold ofParts
  split
  · exact ⟨_, rfl⟩
  · dsimp only
    rw [dif_pos (by split <;> omega)]
    exact ⟨_, rfl⟩

/-- A quotient that is not too large has a double. -/
theorem exists_ofRatio {n : Nat} (hn : n ≤ 1000) (hden : 0 < den) (h : num < 2 ^ n * den) :
    ∃ x, ofRatio negative num den = some x := by
  refine exists_ofParts ?_
  have hlog : Nat.log2 (num * unitsInOne / den) < n + 1074 := by
    rcases Nat.eq_zero_or_pos (num * unitsInOne / den) with hzero | hpos
    · rw [hzero]
      exact Nat.lt_add_left n (by decide)
    · have hpow : 2 ^ (n + 1074) * den = 2 ^ n * den * unitsInOne := by
        unfold unitsInOne
        generalize 1074 = m
        rw [pow_add]
        exact Nat.mul_right_comm ..
      rw [Nat.log2_lt hpos.ne', Nat.div_lt_iff_lt_mul hden, hpow]
      exact Nat.mul_lt_mul_of_pos_right h unitsInOne_pos
  omega

end Ratio

section Decimal

variable {negative : Bool} {c : Nat} {e : Int} {x : Double}

theorem digitCount_le_iff {n k : Nat} (h : 0 < k) : digitCount n ≤ k ↔ n < 10 ^ k :=
  Nat.length_toDigits_le_iff (by decide) h

theorem roundsTo_zero {v : ℚ} (hv : 0 ≤ v) (h : 2 * v * unitsInOne ≤ 1) :
    (zero negative).RoundsTo v := by
  have hsignificand : (zero negative).significand = 0 := rfl
  have hlow : (roundingInterval (zero negative)).1 = 0 := rfl
  have hhigh : (roundingInterval (zero negative)).2 = 2 := rfl
  rw [RoundsTo, if_pos (by rw [hsignificand]), hlow, hhigh]
  refine ⟨?_, ?_⟩
  · rw [Nat.cast_zero]
    exact mul_nonneg (mul_nonneg (by norm_num) hv) (Nat.cast_nonneg _)
  · push_cast
    linarith

theorem exists_unitsInOne_le : ∃ n ≤ 325, 2 * unitsInOne ≤ 10 ^ n := by
  refine ⟨13 * 25, by decide, ?_⟩
  unfold unitsInOne
  generalize hm : 1074 = m
  generalize hk : 25 = k
  calc 2 * 2 ^ m
    _ = 2 ^ (m + 1) := (pow_succ' 2 m).symm
    _ ≤ 2 ^ (43 * k) := Nat.pow_le_pow_right (by decide) (by omega)
    _ = (2 ^ 43) ^ k := pow_mul 2 43 k
    _ ≤ (10 ^ 13) ^ k := Nat.pow_le_pow_left (by decide) k
    _ = 10 ^ (13 * k) := (pow_mul 10 13 k).symm

/-- A number far below the least positive double rounds to zero. -/
theorem roundsTo_zero_of_le {v : ℚ} (hv : 0 ≤ v) {k : Int} (hk : k ≤ -325) (h : v ≤ 10 ^ k) :
    (zero negative).RoundsTo v := by
  obtain ⟨n, hn, hunits⟩ := exists_unitsInOne_le
  have hunits : (2 * unitsInOne : ℚ) ≤ 10 ^ (n : Int) := by
    rw [zpow_natCast]
    exact_mod_cast hunits
  refine roundsTo_zero hv ?_
  calc 2 * v * unitsInOne
    _ = v * (2 * unitsInOne) := by ring
    _ ≤ 10 ^ k * 10 ^ (n : Int) := mul_le_mul h hunits
      (mul_nonneg (by norm_num) (Nat.cast_nonneg _)) (zpow_nonneg (by norm_num) k)
    _ = 10 ^ (k + n) := (zpow_add₀ (by norm_num) ..).symm
    _ ≤ 1 := zpow_le_one_of_nonpos₀ (by norm_num) (by omega)

/-- A decimal is a quotient, which is rounded unless its order is far out of range. -/
theorem exists_ofDecimal_eq (negative : Bool) (c : Nat) (e : Int) : ∃ num den : Nat, 0 < den ∧
    (num / den : ℚ) = c * 10 ^ e ∧ ofDecimal negative c e =
      if c = 0 then some (zero negative)
      else if 310 < e + digitCount c then none
      else if e + digitCount c < -330 then some (zero negative)
      else ofRatio negative num den := by
  rcases le_or_gt 0 e with he | he
  · obtain ⟨n, rfl⟩ := Int.eq_ofNat_of_zero_le he
    refine ⟨c * 10 ^ n, 1, Nat.one_pos, by simp, ?_⟩
    rw [ofDecimal]
    simp only [if_pos he, Int.toNat_natCast]
    rfl
  · obtain ⟨n, rfl⟩ := Int.exists_eq_neg_ofNat he.le
    refine ⟨c, 10 ^ n, Nat.pow_pos (by decide), by simp [div_eq_mul_inv], ?_⟩
    rw [ofDecimal]
    simp only [if_neg (not_le.2 he), Int.neg_neg, Int.toNat_natCast]
    rfl

theorem roundsTo_ofDecimal (hx : ofDecimal negative c e = some x) : x.RoundsTo (c * 10 ^ e) := by
  obtain ⟨num, den, hden, hvalue, heq⟩ := exists_ofDecimal_eq negative c e
  rw [heq] at hx
  split at hx
  next hc =>
    cases hx
    rw [hc, Nat.cast_zero, zero_mul]
    exact roundsTo_zero_iff.2 rfl
  next =>
    split at hx
    next => cases hx
    next =>
      split at hx
      next horder =>
        cases hx
        have hle : (c : ℚ) ≤ 10 ^ (digitCount c : Int) := by
          rw [zpow_natCast]
          exact_mod_cast (digitCount_le_iff Nat.length_toDigits_pos).1 le_rfl |>.le
        refine roundsTo_zero_of_le (by positivity) (by omega : e + digitCount c ≤ -325) ?_
        rw [zpow_add₀ (by norm_num), mul_comm]
        exact mul_le_mul_of_nonneg_left hle (by positivity)
      next => exact hvalue ▸ roundsTo_ofRatio hden hx

/-- A decimal that is not too large has a double. -/
theorem exists_ofDecimal (negative : Bool) {n : Nat} (hn : n ≤ 250)
    (h : (c * 10 ^ e : ℚ) < 10 ^ n) : ∃ x, ofDecimal negative c e = some x := by
  obtain ⟨num, den, hden, hvalue, heq⟩ := exists_ofDecimal_eq negative c e
  rw [heq]
  split
  next => exact ⟨_, rfl⟩
  next hc =>
    have horder : ¬310 < e + digitCount c := by
      intro hlarge
      have hpos : 0 < digitCount c := Nat.length_toDigits_pos
      have hdigits : (10 : ℚ) ^ ((digitCount c - 1 : ℕ) : Int) ≤ c := by
        rw [zpow_natCast]
        exact_mod_cast Digits.pow_digitCount_le (Nat.pos_of_ne_zero hc)
      refine absurd h (not_lt.2 ?_)
      calc (10 : ℚ) ^ n
        _ = 10 ^ (n : Int) := (zpow_natCast ..).symm
        _ ≤ 10 ^ (((digitCount c - 1 : ℕ) : Int) + e) :=
          zpow_le_zpow_right₀ (by norm_num) (by omega)
        _ = 10 ^ ((digitCount c - 1 : ℕ) : Int) * 10 ^ e := zpow_add₀ (by norm_num) ..
        _ ≤ c * 10 ^ e := mul_le_mul_of_nonneg_right hdigits (by positivity)
    have hnum : num < 2 ^ (4 * n) * den := by
      have hpow : (10 : ℚ) ^ n ≤ 2 ^ (4 * n) := by
        rw [pow_mul]
        exact pow_le_pow_left₀ (by norm_num) (by norm_num) n
      have hlt := h.trans_le hpow
      rw [← hvalue, div_lt_iff₀ (Nat.cast_pos.2 hden)] at hlt
      exact_mod_cast hlt
    rw [if_neg horder]
    split
    next => exact ⟨_, rfl⟩
    next => exact exists_ofRatio (by omega) hden hnum

theorem negative_ofParts {r s : Nat} (hx : ofParts negative r s = some x) :
    x.negative = negative := by
  unfold ofParts at hx
  split at hx
  · cases hx
    rfl
  · simp only [Option.dite_none_right_eq_some] at hx
    obtain ⟨_, hx⟩ := hx
    cases hx
    rfl

theorem negative_ofDecimal (hx : ofDecimal negative c e = some x) : x.negative = negative := by
  obtain ⟨num, den, -, -, heq⟩ := exists_ofDecimal_eq negative c e
  rw [heq] at hx
  split at hx
  next =>
    cases hx
    rfl
  next =>
    split at hx
    next => cases hx
    next =>
      split at hx
      next =>
        cases hx
        rfl
      next => exact negative_ofParts hx

end Decimal

end Double

end ConfigSchema
