import ConfigSchema.Json.Reader
import ConfigSchema.Proofs.Decimal.Shortest

/-!
The texts of JSON numbers. Whatever its layout, the text of digits is read as the number that the
digits stand for, and of a double that number rounds to no other double. Main statement: numbers
with the same text are equal.
-/

namespace ConfigSchema

open Numeral Json.Reader
open Text (Stops stops_nil stops_cons)

/-- The characters of numbers. -/
def isNumeric (c : Char) : Bool := c.isDigit || c = '-' || c = '+' || c = '.' || c = 'e'

theorem isNumeric_of_isDigit {c : Char} (h : c.isDigit = true) : isNumeric c = true := by
  simp [isNumeric, h]

namespace Digits

/-- The digits at the front of a text are what is in front of another character. -/
theorem takeDigits_append {ds rest : List Char} (hds : ∀ c ∈ ds, c.isDigit = true)
    (hrest : Stops Char.isDigit rest) : takeDigits (ds ++ rest) = (ds, rest) :=
  Prod.ext (Text.takeWhile_append hds hrest) (Text.dropWhile_append hds hrest)

/-- The number of a numeral without a sign. -/
def valueOf? (cs : List Char) : Option ℚ :=
  let (whole, cs) := takeDigits cs
  (fractionPart cs).bind fun (fraction, cs) => (exponentPart cs).bind fun (exponent, cs) =>
    if cs = [] then
      some (Nat.ofDigitChars 10 (whole ++ fraction.getD []) 0 *
        10 ^ (exponent.getD 0 - (fraction.getD []).length))
    else none

theorem valueOf?_minus (cs : List Char) : valueOf? ('-' :: cs) = none := rfl

/-- The last part of a numeral in scientific notation. -/
def exponentText (e : Int) : List Char :=
  'e' :: (if e < 0 then '-' else '+') :: Nat.toDigits 10 e.natAbs

theorem takeSign_sign (e : Int) (cs : List Char) :
    takeSign ((if e < 0 then '-' else '+') :: cs) = (decide (e < 0), cs) := by
  split <;> simp [takeSign, *]

theorem exponentPart_exponentText (e : Int) :
    exponentPart (exponentText e) = some (some e, []) := by
  have htake : takeDigits (Nat.toDigits 10 e.natAbs ++ []) = (Nat.toDigits 10 e.natAbs, []) :=
    takeDigits_append (fun _ => isDigit_toDigits) (stops_nil _)
  have hvalue : Nat.ofDigitChars 10 (Nat.toDigits 10 e.natAbs) 0 = e.natAbs :=
    Nat.ofDigitChars_ten_toDigits
  rw [exponentText, exponentPart, if_pos (.inl rfl), takeSign_sign]
  obtain ⟨c, cs, hdigits⟩ : ∃ c cs, Nat.toDigits 10 e.natAbs = c :: cs :=
    List.exists_cons_of_ne_nil Nat.toDigits_ne_nil
  rw [List.append_nil, hdigits] at htake
  rw [hdigits] at hvalue
  simp only [hdigits, htake, hvalue, decide_eq_true_eq, Option.some.injEq, Prod.mk.injEq, and_true]
  split <;> omega

section Value

variable {whole fraction rest : List Char} {e : Option Int}

theorem valueOf?_whole (hwhole : ∀ c ∈ whole, c.isDigit = true)
    (hpoint : fractionPart rest = some (none, rest)) (hstops : Stops Char.isDigit rest)
    (he : exponentPart rest = some (e, [])) :
    valueOf? (whole ++ rest) = some (Nat.ofDigitChars 10 whole 0 * (10 : ℚ) ^ e.getD 0) := by
  simp [valueOf?, takeDigits_append hwhole hstops, hpoint, he]

theorem valueOf?_point (hwhole : ∀ c ∈ whole, c.isDigit = true)
    (hfraction : ∀ c ∈ fraction, c.isDigit = true) (hne : fraction ≠ [])
    (hstops : Stops Char.isDigit rest) (he : exponentPart rest = some (e, [])) :
    valueOf? (whole ++ '.' :: (fraction ++ rest)) =
      some (Nat.ofDigitChars 10 (whole ++ fraction) 0 *
        (10 : ℚ) ^ (e.getD 0 - (fraction.length : ℤ))) := by
  have hpoint : fractionPart ('.' :: (fraction ++ rest)) = some (some fraction, rest) := by
    rw [fractionPart, takeDigits_append hfraction hstops]
    cases fraction with
    | nil => exact absurd rfl hne
    | cons => rfl
  have hafter : Stops Char.isDigit ('.' :: (fraction ++ rest)) := stops_cons (by decide)
  simp [valueOf?, takeDigits_append hwhole hafter, hpoint, he]

end Value

/-- The digits before and after the point stand for the same number as the digits do. -/
theorem value_positions (d : Digits) : (Nat.ofDigitChars 10 (d.positions.1 ++ d.positions.2) 0 : ℚ) *
    10 ^ (-(d.positions.2.length : ℤ)) = d.value := by
  unfold positions value
  split
  case isTrue h =>
    have hzeros : Nat.ofDigitChars 10 (['0'] ++
        (List.replicate (-d.exponent - 1).toNat '0' ++ d.digits)) 0 =
        Nat.ofDigitChars 10 d.digits 0 := by
      simp [Nat.ofDigitChars_append, Nat.ofDigitChars_replicate_zero, Nat.ofDigitChars_cons]
    simp only [hzeros, List.length_append, List.length_replicate]
    congr 2
    omega
  case isFalse h =>
    simp only
    rcases le_or_gt d.digits.length (d.exponent + 1).toNat with hle | hlt
    · have hexponent : d.exponent - d.digits.length + 1 =
          ((d.exponent + 1).toNat - d.digits.length : ℕ) := by omega
      rw [hexponent, zpow_natCast, List.take_of_length_le hle, List.drop_eq_nil_of_le hle,
        List.append_nil, Nat.ofDigitChars_append, Nat.ofDigitChars_replicate_zero]
      push_cast
      rw [List.length_nil, Nat.cast_zero, neg_zero, zpow_zero, mul_one, mul_comm]
    · have hnone : (d.exponent + 1).toNat - d.digits.length = 0 := by omega
      rw [hnone, List.replicate_zero, List.append_nil, List.take_append_drop, List.length_drop]
      congr 2
      omega

theorem isDigit_of_mem_positions {d : Digits} (h : d.Readable) :
    (∀ c ∈ d.positions.1, c.isDigit = true) ∧ ∀ c ∈ d.positions.2, c.isDigit = true := by
  have hzeros : ∀ n, ∀ c ∈ List.replicate n '0', c.isDigit = true := fun n c hc => by
    rw [List.eq_of_mem_replicate hc]
    decide
  unfold positions
  split
  · refine ⟨by simp, fun c hc => ?_⟩
    rcases List.mem_append.1 hc with hc | hc
    · exact hzeros _ c hc
    · exact h.2 c hc
  · refine ⟨fun c hc => ?_, fun c hc => h.2 c (List.mem_of_mem_drop hc)⟩
    rcases List.mem_append.1 hc with hc | hc
    · exact h.2 c (List.mem_of_mem_take hc)
    · exact hzeros _ c hc

theorem valueOf?_positional {d : Digits} (h : d.Readable) :
    valueOf? d.positional = some d.value := by
  obtain ⟨hwhole, hfraction⟩ := isDigit_of_mem_positions h
  have hvalue := value_positions d
  have hend : exponentPart [] = some (none, []) := rfl
  rw [positional]
  generalize d.positions = p at *
  obtain ⟨whole, fraction⟩ := p
  simp only at *
  cases fraction with
  | nil =>
      -- the zero after the point is made up for by the place that it takes
      have hzero : (Nat.ofDigitChars 10 (whole ++ ['0']) 0 : ℚ) * 10⁻¹ =
          Nat.ofDigitChars 10 whole 0 := by
        simp [Nat.ofDigitChars_append, Nat.ofDigitChars_cons, mul_comm]
      have hdigit : ∀ c ∈ ['0'], c.isDigit = true := by simp
      have hread := valueOf?_point hwhole hdigit (by simp) (stops_nil _) hend
      rw [← hvalue]
      simpa [hzero] using hread
  | cons c cs =>
      have hread := valueOf?_point hwhole hfraction (by simp) (stops_nil _) hend
      rw [← hvalue]
      simpa using hread

theorem valueOf?_scientific {d : Digits} (h : d.Readable) :
    valueOf? d.scientific = some d.value := by
  obtain ⟨hne, hdigits⟩ := h
  have hexponent := exponentPart_exponentText d.exponent
  have hstops : Stops Char.isDigit (exponentText d.exponent) := stops_cons (by decide)
  rw [scientific, value]
  cases hd : d.digits with
  | nil => exact absurd hd hne
  | cons c cs =>
      rw [hd] at hdigits
      obtain ⟨hc, hcs⟩ := List.forall_mem_cons.1 hdigits
      have hfirst : ∀ c' ∈ [c], c'.isDigit = true := by simpa using hc
      cases cs with
      | nil =>
          have hread := valueOf?_whole hfirst rfl hstops hexponent
          simpa [exponentText] using hread
      | cons c' cs =>
          have hread := valueOf?_point hfirst hcs (by simp) hstops hexponent
          have hplaces : d.exponent - ((c :: c' :: cs).length : ℤ) + 1 =
              (some d.exponent).getD 0 - ((c' :: cs).length : ℤ) := by
            simp only [List.length_cons, Option.getD_some]
            omega
          rw [hplaces]
          simpa [exponentText] using hread

theorem isNumeric_of_mem_positional {d : Digits} {c : Char} (h : d.Readable)
    (hc : c ∈ d.positional) : isNumeric c = true := by
  obtain ⟨hwhole, hfraction⟩ := isDigit_of_mem_positions h
  rw [positional] at hc
  rcases List.mem_append.1 hc with hc | hc
  · exact isNumeric_of_isDigit (hwhole c hc)
  · rcases List.mem_cons.1 hc with rfl | hc
    · rfl
    · split at hc
      · rw [List.mem_singleton.1 hc]
        rfl
      · exact isNumeric_of_isDigit (hfraction c hc)

theorem isNumeric_of_mem_scientific {d : Digits} {c : Char} (h : d.Readable)
    (hc : c ∈ d.scientific) : isNumeric c = true := by
  have hdigit : ∀ c ∈ d.digits, isNumeric c = true := fun c hc => isNumeric_of_isDigit (h.2 c hc)
  rw [scientific] at hc
  rcases List.mem_append.1 hc with hc | hc
  · split at hc
    next => cases hc
    next heq => exact hdigit c (heq ▸ hc)
    next heq =>
      rcases List.mem_cons.1 hc with rfl | hc
      · exact hdigit _ (heq ▸ List.mem_cons_self)
      · rcases List.mem_cons.1 hc with rfl | hc
        · rfl
        · exact hdigit c (heq ▸ List.mem_cons_of_mem _ hc)
  · rcases List.mem_cons.1 hc with rfl | hc
    · rfl
    · rcases List.mem_cons.1 hc with rfl | hc
      · split <;> rfl
      · exact isNumeric_of_isDigit (isDigit_toDigits hc)

end Digits

theorem minus_ne_toDigits (n : Nat) (cs : List Char) : '-' :: cs ≠ Nat.toDigits 10 n := by
  intro h
  have := isDigit_toDigits (n := n) (c := '-') (h ▸ List.mem_cons_self)
  revert this
  decide

theorem decimalInt_injective : Function.Injective decimalInt := by
  have hvalue : ∀ n, Nat.ofDigitChars 10 (Nat.toDigits 10 n) 0 = n := fun n =>
    Nat.ofDigitChars_ten_toDigits
  intro n m h
  unfold decimalInt at h
  split at h <;> split at h
  · have := congrArg (Nat.ofDigitChars 10 · 0) (List.cons.inj h).2
    simp only [hvalue] at this
    omega
  · exact absurd h (minus_ne_toDigits _ _)
  · exact absurd h.symm (minus_ne_toDigits _ _)
  · have := congrArg (Nat.ofDigitChars 10 · 0) h
    simp only [hvalue] at this
    omega

theorem mem_decimalInt {n : Int} {c : Char} (h : c ∈ decimalInt n) : c = '-' ∨ c.isDigit = true := by
  unfold decimalInt at h
  split at h
  · exact (List.mem_cons.1 h).imp_right isDigit_toDigits
  · exact .inr (isDigit_toDigits h)

namespace JsonNumber

/-- The text of a double without its sign. -/
def bodyOf (x : Double) : List Char :=
  let d := Digits.shortest x
  if -5 ≤ d.exponent ∧ d.exponent ≤ 15 then d.positional else d.scientific

theorem text_double (x : Double) :
    (double x).text = if x.negative then '-' :: bodyOf x else bodyOf x := rfl

theorem valueOf?_bodyOf (x : Double) :
    Digits.valueOf? (bodyOf x) = some (Digits.shortest x).value := by
  unfold bodyOf
  simp only
  split
  · exact Digits.valueOf?_positional (Digits.readable_shortest x)
  · exact Digits.valueOf?_scientific (Digits.readable_shortest x)

/-- A double cannot be mistaken for an integer. -/
theorem mem_bodyOf (x : Double) : '.' ∈ bodyOf x ∨ 'e' ∈ bodyOf x := by
  unfold bodyOf
  simp only
  split
  · exact .inl (List.mem_append_right _ List.mem_cons_self)
  · exact .inr (List.mem_append_right _ List.mem_cons_self)

theorem minus_ne_bodyOf (x : Double) (cs : List Char) : '-' :: cs ≠ bodyOf x := by
  intro h
  have hvalue := valueOf?_bodyOf x
  rw [← h, Digits.valueOf?_minus] at hvalue
  cases hvalue

theorem integer_ne_double (n : WordInt) (x : Double) : (integer n).text ≠ (double x).text := by
  intro h
  have hinteger : ∀ c ∈ (double x).text, c = '-' ∨ c.isDigit = true := fun c hc =>
    mem_decimalInt (n := n.value) (h.symm ▸ hc : c ∈ (integer n).text)
  have hbody : ∀ c ∈ bodyOf x, c ∈ (double x).text := fun c hc => by
    rw [text_double]
    split
    · exact List.mem_cons_of_mem _ hc
    · exact hc
  rcases mem_bodyOf x with hmem | hmem
  · exact absurd (hinteger _ (hbody _ hmem)) (by decide)
  · exact absurd (hinteger _ (hbody _ hmem)) (by decide)

theorem double_text_injective {x y : Double} (h : (double x).text = (double y).text) : x = y := by
  rw [text_double, text_double] at h
  have hboth : x.negative = y.negative ∧ bodyOf x = bodyOf y := by
    cases hx : x.negative <;> cases hy : y.negative <;> simp only [hx, hy] at h
    · exact ⟨rfl, by simpa using h⟩
    · exact absurd h.symm (minus_ne_bodyOf _ _)
    · exact absurd h (minus_ne_bodyOf _ _)
    · exact ⟨rfl, by simpa using h⟩
  obtain ⟨hsign, hbody⟩ := hboth
  have hvalue := valueOf?_bodyOf x
  rw [hbody, valueOf?_bodyOf y] at hvalue
  have hx := Digits.roundsTo_shortest x
  rw [← Option.some.inj hvalue] at hx
  exact Double.eq_of_roundsTo hx (Digits.roundsTo_shortest y) hsign

/-- Numbers with the same text are equal. -/
theorem text_injective : Function.Injective text := by
  rintro (n | x) (m | y) h
  · obtain ⟨n, hn⟩ := n
    obtain ⟨m, hm⟩ := m
    obtain rfl : n = m := decimalInt_injective h
    rfl
  · exact absurd h (integer_ne_double n y)
  · exact absurd h.symm (integer_ne_double m x)
  · rw [double_text_injective h]

theorem isNumeric_of_mem_text {n : JsonNumber} {c : Char} (h : c ∈ n.text) :
    isNumeric c = true := by
  have hbody : ∀ x, ∀ c ∈ bodyOf x, isNumeric c = true := by
    intro x c hc
    unfold bodyOf at hc
    simp only at hc
    split at hc
    · exact Digits.isNumeric_of_mem_positional (Digits.readable_shortest x) hc
    · exact Digits.isNumeric_of_mem_scientific (Digits.readable_shortest x) hc
  cases n with
  | integer n =>
      rcases mem_decimalInt h with rfl | hc
      · rfl
      · exact isNumeric_of_isDigit hc
  | double x =>
      rw [text_double] at h
      split at h
      · rcases List.mem_cons.1 h with rfl | hc
        · rfl
        · exact hbody x c hc
      · exact hbody x c h

theorem text_ne_nil (n : JsonNumber) : n.text ≠ [] := by
  cases n with
  | integer n =>
      rw [text, decimalInt]
      split
      · exact List.cons_ne_nil _ _
      · exact Nat.toDigits_ne_nil
  | double x =>
      rw [text_double]
      split
      · exact List.cons_ne_nil _ _
      · rcases mem_bodyOf x with h | h <;> exact List.ne_nil_of_mem h

end JsonNumber

end ConfigSchema
