import ConfigSchema.Proofs.Decimal.Interval
import ConfigSchema.Proofs.Text.Prefix
import Mathlib.Algebra.Order.Field.Power
import Mathlib.Data.List.DropRight

/-!
The search for the shortest digits ends. A grid of seventeen digits is finer than the interval of
any double is wide, so one of the two neighbours of the value lies in the interval. Main statement:
`Digits.roundsTo_shortest`, the number of the shortest digits of a double rounds to it.
-/

namespace ConfigSchema

namespace Digits

open Double (unitsInOne RoundsTo digitCount)

/-- The number that the digits stand for. -/
def value (d : Digits) : ℚ :=
  Nat.ofDigitChars 10 d.digits 0 * 10 ^ (d.exponent - d.digits.length + 1)

theorem value_ofScaled (c : Nat) (k : Int) : (ofScaled c k).value = c * 10 ^ k := by
  have hsplit : (ofScaled c k).digits ++ (Nat.toDigits 10 c).rtakeWhile (· = '0') =
      Nat.toDigits 10 c := List.rdropWhile_append_rtakeWhile
  have hzeros : (Nat.toDigits 10 c).rtakeWhile (· = '0') =
      List.replicate ((Nat.toDigits 10 c).rtakeWhile (· = '0')).length '0' :=
    List.eq_replicate_iff.2 ⟨rfl, fun a ha => of_decide_eq_true
      (List.mem_rtakeWhile_imp (p := fun c => decide (c = '0')) ha)⟩
  generalize ((Nat.toDigits 10 c).rtakeWhile (· = '0')).length = m at hzeros
  rw [hzeros] at hsplit
  have hc : c = 10 ^ m * Nat.ofDigitChars 10 (ofScaled c k).digits 0 := by
    rw [← Nat.ofDigitChars_replicate_zero, ← Nat.ofDigitChars_append, hsplit,
      Nat.ofDigitChars_ten_toDigits]
  have hlength := congrArg List.length hsplit
  rw [List.length_append, List.length_replicate] at hlength
  have hexponent : (ofScaled c k).exponent - (ofScaled c k).digits.length + 1 = m + k := by
    have hshift : (ofScaled c k).exponent = k + (Nat.toDigits 10 c).length - 1 := rfl
    omega
  rw [value, hexponent, zpow_add₀ (by norm_num), zpow_natCast]
  have hcast : (c : ℚ) = 10 ^ m * (Nat.ofDigitChars 10 (ofScaled c k).digits 0 : ℕ) := by
    exact_mod_cast hc
  rw [hcast]
  ring

theorem isDigit_of_mem_ofScaled {c : Nat} {k : Int} {d : Char} (h : d ∈ (ofScaled c k).digits) :
    d.isDigit = true :=
  isDigit_toDigits ((List.rdropWhile_prefix _ _).subset h)

theorem gridStep_eq (k : Int) : 0 < (gridStep k).2 ∧
    ((gridStep k).1 : ℚ) = 10 ^ k * (gridStep k).2 := by
  unfold gridStep
  split
  case isTrue h =>
    obtain ⟨n, rfl⟩ := Int.eq_ofNat_of_zero_le h
    simp
  case isFalse h =>
    obtain ⟨n, rfl⟩ := Int.exists_eq_neg_ofNat (by omega : k ≤ 0)
    simp

theorem readsBack_iff {x : Double} {c : Nat} {k : Int} :
    readsBack x c k = true ↔ x.RoundsTo (c * 10 ^ k) := by
  obtain ⟨hden, hnum⟩ := gridStep_eq k
  have hden : (0 : ℚ) < (gridStep k).2 := Nat.cast_pos.2 hden
  have hpoint : ((4 * (c * (gridStep k).1) * unitsInOne : ℕ) : ℚ) =
      4 * (c * 10 ^ k) * unitsInOne * (gridStep k).2 := by
    push_cast
    rw [hnum]
    ring
  have hscale : ∀ n : Nat, ((n * (gridStep k).2 : ℕ) : ℚ) = n * (gridStep k).2 :=
    fun n => Nat.cast_mul n _
  unfold readsBack RoundsTo
  simp only
  split
  · rw [Bool.and_eq_true, decide_eq_true_eq, decide_eq_true_eq, ← Nat.cast_le (α := ℚ),
      ← Nat.cast_le (α := ℚ), hpoint, hscale, hscale, mul_le_mul_iff_left₀ hden,
      mul_le_mul_iff_left₀ hden]
  · rw [Bool.and_eq_true, decide_eq_true_eq, decide_eq_true_eq, ← Nat.cast_lt (α := ℚ),
      ← Nat.cast_lt (α := ℚ), hpoint, hscale, hscale, mul_lt_mul_iff_left₀ hden,
      mul_lt_mul_iff_left₀ hden]

/-- What the search on a grid finds is a point of the grid that reads back. -/
theorem exists_ofScaled_of_onGrid {x : Double} {n : Nat} {d : Digits} (h : onGrid x n = some d) :
    ∃ c, d = ofScaled c (leadingExponent x.magnitude unitsInOne - n + 1) ∧
      readsBack x c (leadingExponent x.magnitude unitsInOne - n + 1) = true := by
  revert h
  unfold onGrid
  simp only
  split
  next hlow hhigh =>
    split
    · exact fun h => ⟨_, (Option.some.inj h).symm, hhigh⟩
    · exact fun h => ⟨_, (Option.some.inj h).symm, hlow⟩
  next hlow _ => exact fun h => ⟨_, (Option.some.inj h).symm, hlow⟩
  next _ hhigh => exact fun h => ⟨_, (Option.some.inj h).symm, hhigh⟩
  next => exact fun h => nomatch h

theorem roundsTo_of_onGrid {x : Double} {n : Nat} {d : Digits} (h : onGrid x n = some d) :
    x.RoundsTo d.value ∧ ∀ c ∈ d.digits, c.isDigit = true := by
  obtain ⟨c, rfl, hback⟩ := exists_ofScaled_of_onGrid h
  exact ⟨value_ofScaled c _ ▸ readsBack_iff.1 hback, fun d hd => isDigit_of_mem_ofScaled hd⟩

theorem pow_digitCount_le {n : Nat} (h : 0 < n) : 10 ^ (digitCount n - 1) ≤ n := by
  by_contra hlt
  have hdigits : 1 < digitCount n := by
    by_contra hone
    rw [Nat.sub_eq_zero_of_le (not_lt.1 hone), pow_zero] at hlt
    omega
  have := (Nat.length_toDigits_le_iff (by decide) (by omega)).2 (not_le.1 hlt)
  rw [digitCount] at *
  omega

theorem lt_pow_digitCount (n : Nat) : n < 10 ^ digitCount n :=
  (Nat.length_toDigits_le_iff (by decide) Nat.length_toDigits_pos).1 le_rfl

theorem zpow_leadingExponent_le {num den : Nat} (hnum : 0 < num) (hden : 0 < den) :
    (10 : ℚ) ^ leadingExponent num den * den ≤ num := by
  unfold leadingExponent
  split
  case isTrue h =>
    have hpos : 0 < digitCount (num / den) := Nat.length_toDigits_pos
    have hle : 10 ^ (digitCount (num / den) - 1) * den ≤ num :=
      (Nat.mul_le_mul_right den (pow_digitCount_le (Nat.div_pos h hden))).trans
        (Nat.div_mul_le_self num den)
    rw [← Nat.cast_one, ← Nat.cast_sub hpos, zpow_natCast]
    exact_mod_cast hle
  case isFalse h =>
    have hle : den ≤ num * 10 ^ digitCount ((den - 1) / num) := by
      have := (Nat.div_lt_iff_lt_mul hnum).1 (lt_pow_digitCount ((den - 1) / num))
      rw [Nat.mul_comm]
      omega
    rw [zpow_neg, zpow_natCast, inv_mul_le_iff₀ (by positivity), mul_comm]
    exact_mod_cast hle

/-- One of the neighbours of a double on a grid finer than its interval rounds to it. -/
theorem roundsTo_neighbour {x : Double} (h : x.isZero = false) {g : ℚ} {c : Nat}
    (hfine : 4 * g * unitsInOne < x.step * (2 + x.reach))
    (hlow : c * g * unitsInOne ≤ x.magnitude) (hhigh : x.magnitude < (c + 1) * g * unitsInOne) :
    x.RoundsTo (c * g) ∨ x.RoundsTo ((c + 1) * g) := by
  have hwidth : ((roundingInterval x).1 : ℚ) + x.step * (2 + x.reach) = (roundingInterval x).2 :=
    mod_cast Double.roundingInterval_width h
  have hbelow : ((roundingInterval x).1 : ℚ) ≤ 4 * x.magnitude := by
    have hle : (roundingInterval x).1 ≤ 4 * x.magnitude := Nat.sub_le _ _
    exact_mod_cast hle
  have habove : 4 * (x.magnitude : ℚ) < (roundingInterval x).2 :=
    mod_cast Nat.lt_add_of_pos_right (Nat.mul_pos (by decide) x.step_pos)
  rcases lt_or_ge ((roundingInterval x).1 : ℚ) (4 * (c * g) * unitsInOne) with hin | hout
  · exact .inl (Double.roundsTo_of_lt hin (by linarith))
  · exact .inr (Double.roundsTo_of_lt (by linarith) (by linarith))

/-- The search on a grid fails only if neither neighbour of the double rounds to it. -/
theorem exists_neighbours_of_onGrid_eq_none {x : Double} {n : Nat} {k : Int}
    (hk : leadingExponent x.magnitude unitsInOne - n + 1 = k) (h : onGrid x n = none) :
    ∃ c : Nat, c * 10 ^ k * (unitsInOne : ℚ) ≤ x.magnitude ∧
      x.magnitude < (c + 1) * 10 ^ k * (unitsInOne : ℚ) ∧
      ¬x.RoundsTo (c * 10 ^ k) ∧ ¬x.RoundsTo ((c + 1) * 10 ^ k) := by
  obtain ⟨hden, hnum⟩ := gridStep_eq k
  have hstep : 0 < (gridStep k).1 * unitsInOne := by
    have hpos : (0 : ℚ) < (gridStep k).1 := by
      rw [hnum]
      positivity
    exact Nat.mul_pos (Nat.cast_pos.1 hpos) Double.unitsInOne_pos
  have hcast : ∀ c : Nat, ((c * ((gridStep k).1 * unitsInOne) : ℕ) : ℚ) =
      c * 10 ^ k * unitsInOne * (gridStep k).2 := by
    intro c
    push_cast
    rw [hnum]
    ring
  have hden : (0 : ℚ) < (gridStep k).2 := Nat.cast_pos.2 hden
  refine ⟨x.magnitude * (gridStep k).2 / ((gridStep k).1 * unitsInOne), ?_, ?_, ?_⟩
  · have hle := Nat.cast_le (α := ℚ) |>.2
      (Nat.div_mul_le_self (x.magnitude * (gridStep k).2) ((gridStep k).1 * unitsInOne))
    rw [hcast, Nat.cast_mul x.magnitude] at hle
    exact le_of_mul_le_mul_right hle hden
  · have hlt := Nat.cast_lt (α := ℚ) |>.2
      (Nat.lt_mul_div_succ (x.magnitude * (gridStep k).2) hstep)
    rw [Nat.mul_comm (_ * _), hcast, Nat.cast_mul x.magnitude, Nat.cast_succ] at hlt
    exact lt_of_mul_lt_mul_right hlt hden.le
  · unfold onGrid at h
    simp only [hk] at h
    split at h
    next => simp at h
    next => simp at h
    next => simp at h
    next hlow hhigh =>
      rw [← Bool.not_eq_true, readsBack_iff] at hlow hhigh
      rw [Nat.cast_succ] at hhigh
      exact ⟨hlow, hhigh⟩

theorem onGrid_seventeen {x : Double} (h : x.isZero = false) : onGrid x 17 ≠ none := by
  intro hnone
  obtain ⟨c, hlow, hhigh, hneither⟩ := exists_neighbours_of_onGrid_eq_none rfl hnone
  have hleading : (10 : ℚ) ^ leadingExponent x.magnitude unitsInOne * unitsInOne ≤ x.magnitude :=
    zpow_leadingExponent_le (Nat.mul_pos (Double.significand_pos h) x.step_pos)
      Double.unitsInOne_pos
  generalize hk : leadingExponent x.magnitude unitsInOne - (17 : ℕ) + 1 = k at *
  have hexponent : leadingExponent x.magnitude unitsInOne = k + (16 : ℕ) := by omega
  have hwidth : (4 * x.significand : ℚ) < (2 + x.reach) * 10 ^ 16 :=
    mod_cast x.significand_lt_width
  have hfine : 4 * 10 ^ k * (unitsInOne : ℚ) < x.step * (2 + x.reach) := by
    have hstep : (0 : ℚ) < x.step := Nat.cast_pos.2 x.step_pos
    have hmagnitude : (x.magnitude : ℚ) = x.significand * x.step := Nat.cast_mul _ _
    rw [hexponent, zpow_add₀ (by norm_num), zpow_natCast, hmagnitude] at hleading
    refine lt_of_mul_lt_mul_right (a := 10 ^ 16) ?_ (by norm_num)
    calc 4 * 10 ^ k * (unitsInOne : ℚ) * 10 ^ 16
      _ = 4 * (10 ^ k * 10 ^ 16 * unitsInOne) := by ring
      _ ≤ 4 * x.significand * x.step := by linarith
      _ < (2 + x.reach) * 10 ^ 16 * x.step := mul_lt_mul_of_pos_right hwidth hstep
      _ = x.step * (2 + x.reach) * 10 ^ 16 := by ring
  exact not_or.2 hneither (roundsTo_neighbour h hfine hlow hhigh)

/-- There are digits, and nothing else. -/
def Readable (d : Digits) : Prop := d.digits ≠ [] ∧ ∀ c ∈ d.digits, c.isDigit = true

/-- If there are digits on some grid, the shortest ones have no more digits. -/
theorem exists_onGrid_eq_shortest {x : Double} (h : x.isZero = false) {n : Nat} (hn : 0 < n)
    (hn' : n ≤ 767) (hgrid : onGrid x n ≠ none) : ∃ m ≤ n, onGrid x m = some (shortest x) := by
  have hlast : n - 1 ∈ List.range 767 := List.mem_range.2 (by omega)
  have hsome : (onGrid x (n - 1 + 1)).isSome = true := by
    rw [Nat.sub_add_cancel hn]
    exact Option.isSome_iff_ne_none.2 hgrid
  have hfound : ((List.range 767).findSome? fun i => onGrid x (i + 1)).isSome = true :=
    List.findSome?_isSome_iff.2 ⟨n - 1, hlast, hsome⟩
  obtain ⟨d, hd⟩ := Option.isSome_iff_exists.1 hfound
  have hshortest : shortest x = d := by simp [shortest, h, hd]
  obtain ⟨before, i, after, hrange, hi, hnone⟩ := List.findSome?_eq_some_iff.1 hd
  refine ⟨i + 1, ?_, hshortest ▸ hi⟩
  -- the numbers before the one that is found have no digits on their grids
  have hsorted : (before ++ i :: after).Pairwise (· < ·) := hrange ▸ List.pairwise_lt_range
  rw [hrange] at hlast
  rcases List.mem_append.1 hlast with hbefore | hafter
  · rw [hnone _ hbefore] at hsome
    cases hsome
  · rcases List.mem_cons.1 hafter with hi | hafter
    · omega
    · have := (List.pairwise_cons.1 (List.pairwise_append.1 hsorted).2.1).1 _ hafter
      omega

/-- The shortest digits are those of zero, or the ones of a grid. -/
theorem shortest_cases (x : Double) : (x.isZero = true ∧ shortest x = ⟨['0'], 0⟩) ∨
    (x.isZero = false ∧ ∃ n, onGrid x n = some (shortest x)) := by
  cases h : x.isZero with
  | true => exact .inl ⟨rfl, if_pos h⟩
  | false =>
      obtain ⟨n, -, hn⟩ := exists_onGrid_eq_shortest h (by decide) (by decide) (onGrid_seventeen h)
      exact .inr ⟨rfl, n, hn⟩

theorem roundsTo_shortest (x : Double) : x.RoundsTo (shortest x).value := by
  rcases shortest_cases x with ⟨hzero, hshortest⟩ | ⟨-, n, hn⟩
  · have hvalue : value ⟨['0'], 0⟩ = 0 := by simp [value, Nat.ofDigitChars]
    rw [hshortest, hvalue]
    exact Double.roundsTo_zero_iff.2 hzero
  · exact (roundsTo_of_onGrid hn).1

theorem readable_shortest (x : Double) : (shortest x).Readable := by
  rcases shortest_cases x with ⟨-, hshortest⟩ | ⟨hzero, n, hn⟩
  · rw [hshortest]
    exact ⟨by simp, by simp⟩
  · refine ⟨fun hnil => ?_, (roundsTo_of_onGrid hn).2⟩
    -- without digits the number is zero, which rounds to no other double
    have hvalue : (shortest x).value = 0 := by simp [value, hnil]
    have := Double.roundsTo_zero_iff.1 (hvalue ▸ roundsTo_shortest x)
    simp [hzero] at this

end Digits

end ConfigSchema
