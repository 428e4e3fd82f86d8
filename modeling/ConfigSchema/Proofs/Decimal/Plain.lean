import ConfigSchema.Proofs.Decimal.Nearest
import ConfigSchema.Proofs.Json.Number
import ConfigSchema.Proofs.Text.Digits
import Mathlib.Tactic.FieldSimp

/-!
Numbers in positional notation without an exponent. The shortest digits of a double do not end in
zero, so they are found again from the number that they stand for. Main statements:
`Digits.plain_shortest_iff`, when a double is written with given digits around the point, and
`ExtendedDouble.text_ofDecimal_iff`, when a number is read and written again as it was.
-/

namespace ConfigSchema

namespace Digits

open Double (digitCount)

/-- The digits are those of a number that ten does not divide. -/
def Reduced (d : Digits) : Prop := ∃ c, ¬10 ∣ c ∧ d.digits = Nat.toDigits 10 c

theorem reduced_ofScaled {c : Nat} (h : 0 < c) (k : Int) : (ofScaled c k).Reduced :=
  exists_rdropWhile_toDigits h

/-- Of two decimals with the same value, neither of whose coefficients ten divides, the exponents
are the same. -/
theorem exponent_le_of_mul_zpow_eq {c c' : Nat} {k k' : Int} (hc : ¬10 ∣ c)
    (h : (c : ℚ) * 10 ^ k = c' * 10 ^ k') : k' ≤ k := by
  by_contra hlt
  obtain ⟨n, hn⟩ : ∃ n : Nat, k' = k + (n + 1 : ℕ) := ⟨(k' - k - 1).toNat, by omega⟩
  refine hc ⟨c' * 10 ^ n, ?_⟩
  have hpos : (0 : ℚ) < 10 ^ k := by positivity
  rw [hn, zpow_add₀ (by norm_num), zpow_natCast, mul_comm _ ((10 : ℚ) ^ k), mul_left_comm,
    mul_right_inj' hpos.ne'] at h
  have h : c = c' * 10 ^ (n + 1) := by exact_mod_cast h
  rw [h]
  ring

theorem Reduced.eq_of_value_eq {d d' : Digits} (h : d.Reduced) (h' : d'.Reduced)
    (hvalue : d.value = d'.value) : d = d' := by
  obtain ⟨digits, exponent⟩ := d
  obtain ⟨digits', exponent'⟩ := d'
  obtain ⟨c, hc, hdigits⟩ := h
  obtain ⟨c', hc', hdigits'⟩ := h'
  simp only at hdigits hdigits'
  subst hdigits hdigits'
  simp only [value, Nat.ofDigitChars_ten_toDigits] at hvalue
  have hexponent := le_antisymm (exponent_le_of_mul_zpow_eq hc' hvalue.symm)
    (exponent_le_of_mul_zpow_eq hc hvalue)
  have hsame : c = c' := by
    rw [hexponent, mul_left_inj' (zpow_ne_zero _ (by norm_num))] at hvalue
    exact_mod_cast hvalue
  subst hsame
  have hsame : exponent = exponent' := by omega
  rw [hsame]

theorem reduced_shortest {x : Double} (h : x.isZero = false) : (shortest x).Reduced := by
  rcases shortest_cases x with ⟨hzero, -⟩ | ⟨-, n, hn⟩
  · simp [h] at hzero
  · obtain ⟨c, hc, -⟩ := exists_ofScaled_of_onGrid hn
    rw [hc]
    refine reduced_ofScaled (Nat.pos_of_ne_zero fun hnone => ?_) _
    -- the number would be zero, which rounds to no other double
    have hvalue := value_ofScaled c (leadingExponent x.magnitude Double.unitsInOne - n + 1)
    rw [← hc, hnone, Nat.cast_zero, zero_mul] at hvalue
    have := Double.roundsTo_zero_iff.1 (hvalue ▸ roundsTo_shortest x)
    simp [h] at this

section Plain

variable {d : Digits} {whole fraction : List Char}

theorem ofDigitChars_positions (h : d.positions.2 ≠ []) :
    Nat.ofDigitChars 10 (d.positions.1 ++ d.positions.2) 0 = Nat.ofDigitChars 10 d.digits 0 := by
  unfold positions at *
  split at h
  case isTrue hneg =>
    rw [if_pos hneg]
    simp [Nat.ofDigitChars_append, Nat.ofDigitChars_replicate_zero, Nat.ofDigitChars_cons]
  case isFalse hneg =>
    rw [if_neg hneg]
    have hlonger : (d.exponent + 1).toNat < d.digits.length := by
      by_contra hle
      exact h (List.drop_eq_nil_of_le (not_lt.1 hle))
    have hnone : (d.exponent + 1).toNat - d.digits.length = 0 := by omega
    simp only [hnone, List.replicate_zero, List.append_nil, List.take_append_drop]

theorem positions_of_plain (h : d.Readable) (hpoint : '.' ∉ fraction)
    (hplain : d.plain = whole ++ '.' :: fraction) :
    d.positions = (whole, fraction) ∧ fraction ≠ [] := by
  obtain ⟨hwhole, hfraction⟩ := isDigit_of_mem_positions h
  have hdigit : ∀ {cs : List Char}, (∀ c ∈ cs, c.isDigit = true) → '.' ∉ cs :=
    fun hcs hmem => absurd (hcs _ hmem) (by decide)
  unfold plain at hplain
  dsimp only at hplain
  split at hplain
  next =>
    refine absurd ?_ (hdigit hwhole)
    rw [hplain]
    simp
  next hne =>
    obtain ⟨hw, hf⟩ := Text.append_sep_inj (hdigit hfraction) hpoint hplain
    refine ⟨Prod.ext hw hf, ?_⟩
    rw [← hf]
    simpa using hne

theorem of_mem_plain (h : d.Readable) {c : Char} (hc : c ∈ d.plain) :
    c.isDigit = true ∨ c = '.' := by
  obtain ⟨hwhole, hfraction⟩ := isDigit_of_mem_positions h
  unfold plain at hc
  dsimp only at hc
  split at hc
  · exact .inl (hwhole c hc)
  · rcases List.mem_append.1 hc with hc | hc
    · exact .inl (hwhole c hc)
    · rcases List.mem_cons.1 hc with hc | hc
      · exact .inr hc
      · exact .inl (hfraction c hc)

theorem count_plain_le (h : d.Readable) : d.plain.count '.' ≤ 1 := by
  obtain ⟨hwhole, hfraction⟩ := isDigit_of_mem_positions h
  have hnone : ∀ {cs : List Char}, (∀ c ∈ cs, c.isDigit = true) → cs.count '.' = 0 :=
    fun hcs => List.count_eq_zero.2 fun hmem => absurd (hcs _ hmem) (by decide)
  unfold plain
  dsimp only
  split
  · rw [hnone hwhole]
    exact Nat.zero_le 1
  · rw [List.count_append, List.count_cons_self, hnone hwhole, hnone hfraction]

theorem plain_of_positions (h : d.positions = (whole, fraction)) (hne : fraction ≠ []) :
    d.plain = whole ++ '.' :: fraction := by
  rw [plain, h]
  simpa using hne

end Plain

/-- The number whose digits before and after the point are those of two natural numbers. -/
def pointValue (major minor : Nat) : ℚ := major + minor / 10 ^ digitCount minor

section Point

variable {major minor : Nat}

theorem pointValue_eq : pointValue major minor =
    (10 ^ digitCount minor * major + minor : ℕ) * 10 ^ (-(digitCount minor : ℤ)) := by
  rw [pointValue, zpow_neg, zpow_natCast]
  push_cast
  field_simp

theorem dvd_pow_mul_add_iff : 10 ∣ 10 ^ digitCount minor * major + minor ↔ 10 ∣ minor :=
  Nat.dvd_add_right ((dvd_pow_self 10 Nat.length_toDigits_pos.ne').mul_right major)

theorem ofDigitChars_toDigits_append : Nat.ofDigitChars 10
    (Nat.toDigits 10 major ++ Nat.toDigits 10 minor) 0 = 10 ^ digitCount minor * major + minor := by
  rw [Nat.ofDigitChars_append, Nat.ofDigitChars_ten_toDigits, Nat.ofDigitChars_eq_ofDigitChars_zero,
    Nat.ofDigitChars_ten_toDigits, digitCount]

theorem value_of_positions {d : Digits}
    (h : d.positions = (Nat.toDigits 10 major, Nat.toDigits 10 minor)) :
    d.value = pointValue major minor := by
  rw [← value_positions, h, pointValue_eq, ofDigitChars_toDigits_append]
  rfl

/-- Digits with those of two numbers before and after the point. -/
theorem exists_reduced_positions (major : Nat) (h : ¬10 ∣ minor) : ∃ d : Digits, d.Reduced ∧
    d.positions = (Nat.toDigits 10 major, Nat.toDigits 10 minor) := by
  rcases Nat.eq_zero_or_pos major with rfl | hmajor
  · exact ⟨⟨Nat.toDigits 10 minor, -1⟩, ⟨minor, h, rfl⟩, rfl⟩
  · refine ⟨⟨Nat.toDigits 10 major ++ Nat.toDigits 10 minor, digitCount major - 1⟩,
      ⟨10 ^ digitCount minor * major + minor, ?_, ?_⟩, ?_⟩
    · rwa [dvd_pow_mul_add_iff]
    · rw [toDigits_append hmajor fun _ => isDigit_toDigits, ← ofDigitChars_toDigits_append,
        Nat.ofDigitChars_append, Nat.ofDigitChars_ten_toDigits]
    · have hpos : 0 < digitCount major := Nat.length_toDigits_pos
      have hwhole : ((digitCount major : ℤ) - 1 + 1).toNat = (Nat.toDigits 10 major).length := by
        rw [digitCount]
        omega
      have hnone : (Nat.toDigits 10 major).length -
          (Nat.toDigits 10 major ++ Nat.toDigits 10 minor).length = 0 := by
        rw [List.length_append]
        omega
      rw [positions, if_neg (by simp only; omega)]
      simp only [hwhole, hnone, List.take_left, List.drop_left, List.replicate_zero,
        List.append_nil]

/-- A double is written with the digits of two numbers before and after the point if its shortest
digits stand for that number and do not end in zero. -/
theorem plain_shortest_iff {x : Double} :
    (shortest x).plain = Nat.toDigits 10 major ++ '.' :: Nat.toDigits 10 minor ↔
      ¬10 ∣ minor ∧ (shortest x).value = pointValue major minor := by
  have hzero : x.isZero = true → shortest x = ⟨['0'], 0⟩ := fun h => if_pos h
  constructor
  · intro hplain
    have hpoint : '.' ∉ Nat.toDigits 10 minor :=
      fun hmem => absurd (isDigit_toDigits hmem) (by decide)
    obtain ⟨hpositions, hne⟩ := positions_of_plain (readable_shortest x) hpoint hplain
    refine ⟨fun hten => ?_, value_of_positions hpositions⟩
    cases h : x.isZero with
    | true =>
        rw [hzero h] at hpositions
        exact hne (Prod.ext_iff.1 hpositions).2.symm
    | false =>
        obtain ⟨c, hc, hdigits⟩ := reduced_shortest h
        have hsame := ofDigitChars_positions (d := shortest x) (by rwa [hpositions])
        rw [hpositions, ofDigitChars_toDigits_append, hdigits, Nat.ofDigitChars_ten_toDigits] at hsame
        exact hc (hsame ▸ dvd_pow_mul_add_iff.2 hten)
  · rintro ⟨hten, hvalue⟩
    obtain ⟨d, hreduced, hpositions⟩ := exists_reduced_positions major hten
    cases h : x.isZero with
    | true =>
        have hnone : (shortest x).value = 0 := by simp [hzero h, value, Nat.ofDigitChars]
        have hpos : 0 < pointValue major minor := by
          have hminor : 0 < minor := Nat.pos_of_ne_zero fun e => hten (e ▸ dvd_zero 10)
          exact add_pos_of_nonneg_of_pos (Nat.cast_nonneg _)
            (div_pos (Nat.cast_pos.2 hminor) (by positivity))
        exact absurd (hnone.symm.trans hvalue) hpos.ne
    | false =>
        have hsame : shortest x = d := (reduced_shortest h).eq_of_value_eq hreduced
          (hvalue.trans (value_of_positions hpositions).symm)
        rw [hsame]
        exact plain_of_positions hpositions Nat.toDigits_ne_nil

theorem pointValue_lt {n : Nat} (h : major < 10 ^ n) (minor : Nat) : pointValue major minor < 10 ^ n := by
  have hfraction : (minor : ℚ) / 10 ^ digitCount minor < 1 := by
    rw [div_lt_one₀ (by positivity)]
    exact_mod_cast lt_pow_digitCount minor
  have hmajor : (major + 1 : ℚ) ≤ 10 ^ n := by exact_mod_cast h
  rw [pointValue]
  linarith

end Point

/-- The sign of a double does not count for the digits. -/
theorem shortest_signed (x : Double) (negative : Bool) :
    shortest { x with negative := negative } = shortest x := by
  unfold shortest onGrid readsBack
  generalize Double.unitsInOne = units
  rfl

/-- Doubles to which the same number rounds have the same digits. -/
theorem shortest_eq_of_roundsTo {x y : Double} {v : ℚ} (hx : x.RoundsTo v) (hy : y.RoundsTo v) :
    shortest x = shortest y := by
  have hsigned : ({ y with negative := x.negative } : Double).RoundsTo v := by
    unfold Double.RoundsTo at hy ⊢
    exact hy
  rw [Double.eq_of_roundsTo hx hsigned rfl, shortest_signed]

end Digits

namespace ExtendedDouble

open Double (digitCount)

section Point

variable {major minor : Nat} (h : major < 10 ^ 250)

include h

/-- A number with digits after the point is written with the shortest digits of a double to which it
rounds. -/
theorem exists_text_ofDecimal (minor : Nat) : ∃ x : Double, x.RoundsTo (Digits.pointValue major minor) ∧
    (ofDecimal false (10 ^ digitCount minor * major + minor) (-(digitCount minor : ℤ))).text =
      (Digits.shortest x).plain := by
  have hsmall := Digits.pointValue_lt h minor
  rw [Digits.pointValue_eq] at hsmall ⊢
  obtain ⟨x, hx⟩ := Double.exists_ofDecimal false le_rfl hsmall
  refine ⟨x, Double.roundsTo_ofDecimal hx, ?_⟩
  rw [ofDecimal, hx]
  simp [text, Double.negative_ofDecimal hx]

/-- A number with digits after the point is read and written as it is if the last of them is not
zero and no fewer digits read back as its double. -/
theorem text_ofDecimal_iff :
    (ofDecimal false (10 ^ digitCount minor * major + minor) (-(digitCount minor : ℤ))).text =
        Nat.toDigits 10 major ++ '.' :: Nat.toDigits 10 minor ↔
      ¬10 ∣ minor ∧ ∃ x, (Digits.shortest x).value = Digits.pointValue major minor := by
  obtain ⟨x, hround, htext⟩ := exists_text_ofDecimal h minor
  rw [htext, Digits.plain_shortest_iff]
  refine and_congr_right fun _ => ⟨fun hvalue => ⟨x, hvalue⟩, fun ⟨y, hy⟩ => ?_⟩
  rwa [Digits.shortest_eq_of_roundsTo hround (hy ▸ Digits.roundsTo_shortest y)]

end Point

end ExtendedDouble

end ConfigSchema
