import ConfigSchema.Proofs.Text.Prefix
import Mathlib.Data.List.DropRight

/-!
The decimal digits of natural numbers: digits behind other digits, zeros at the front and zeros at
the end.
-/

namespace ConfigSchema

theorem digitChar_digitValue {c : Char} (h : 48 ≤ c.toNat ∧ c.toNat ≤ 57) :
    Nat.digitChar (c.toNat - 48) = c := by
  apply Char.toNat_inj.1
  rw [Nat.toNat_digitChar_of_lt_ten (by omega)]
  omega

theorem isDigit_iff {c : Char} : c.isDigit = true ↔ 48 ≤ c.toNat ∧ c.toNat ≤ 57 := by
  simp only [Char.isDigit, ge_iff_le, Bool.and_eq_true, decide_eq_true_eq,
    UInt32.le_iff_toNat_le]
  rfl

/-- The value of digits that are read behind other digits. -/
theorem toDigits_append {n : Nat} {ds : List Char} (hn : 0 < n)
    (hdigits : ∀ c ∈ ds, c.isDigit = true) :
    Nat.toDigits 10 n ++ ds = Nat.toDigits 10 (Nat.ofDigitChars 10 ds n) := by
  induction ds generalizing n with
  | nil => simp
  | cons c ds ih =>
      have hc := isDigit_iff.1 (hdigits c List.mem_cons_self)
      have hlt : c.toNat - 48 < 10 := by omega
      have hlonger : Nat.toDigits 10 n ++ [c] = Nat.toDigits 10 (10 * n + (c.toNat - 48)) := by
        rw [← Nat.toDigits_append_toDigits (by decide) hn hlt, Nat.toDigits_of_lt_base hlt,
          digitChar_digitValue hc]
      calc Nat.toDigits 10 n ++ c :: ds
          = (Nat.toDigits 10 n ++ [c]) ++ ds := by simp
        _ = Nat.toDigits 10 (10 * n + (c.toNat - 48)) ++ ds := by rw [hlonger]
        _ = Nat.toDigits 10 (Nat.ofDigitChars 10 ds (10 * n + (c.toNat - 48))) :=
            ih (by omega) fun d hd => hdigits d (List.mem_cons_of_mem c hd)
        _ = Nat.toDigits 10 (Nat.ofDigitChars 10 (c :: ds) n) := by
            rw [Nat.ofDigitChars_cons]
            rfl

/-- Digits without a leading zero are the digits of their value. -/
theorem toDigits_ofDigitChars {ds : List Char} (hne : ds ≠ [])
    (hdigits : ∀ c ∈ ds, c.isDigit = true) (hzero : ∀ c cs, ds ≠ '0' :: c :: cs) :
    Nat.toDigits 10 (Nat.ofDigitChars 10 ds 0) = ds := by
  cases ds with
  | nil => exact absurd rfl hne
  | cons c ds =>
      have hc := isDigit_iff.1 (hdigits c List.mem_cons_self)
      rw [Nat.ofDigitChars_cons, Nat.mul_zero, Nat.zero_add]
      by_cases h0 : c = '0'
      · subst h0
        cases ds with
        | nil => rfl
        | cons d ds => exact absurd rfl (hzero d ds)
      · have hne48 : c.toNat ≠ 48 := fun h => h0 (Char.toNat_inj.1 h)
        have hpos : 0 < c.toNat - '0'.toNat := by
          rw [show '0'.toNat = 48 from rfl]
          omega
        rw [← toDigits_append hpos fun d hd => hdigits d (List.mem_cons_of_mem c hd),
          show '0'.toNat = 48 from rfl, Nat.toDigits_of_lt_base (by omega), digitChar_digitValue hc]
        rfl

theorem exists_toDigits_eq_concat (n : Nat) :
    ∃ ds, Nat.toDigits 10 n = ds ++ [(n % 10).digitChar] := by
  rcases lt_or_ge n 10 with h | h
  · exact ⟨[], by rw [Nat.toDigits_of_lt_base h, Nat.mod_eq_of_lt h, List.nil_append]⟩
  · exact ⟨_, Nat.toDigits_of_base_le (by decide) h⟩

/-- Without the zeros at the end, the digits are those of a number that ten does not divide. -/
theorem exists_rdropWhile_toDigits {c : Nat} (h : 0 < c) : ∃ c', ¬10 ∣ c' ∧
    (Nat.toDigits 10 c).rdropWhile (· = '0') = Nat.toDigits 10 c' := by
  induction c using Nat.strongRecOn with
  | _ c ih =>
    by_cases hten : 10 ∣ c
    · obtain ⟨q, rfl⟩ := hten
      obtain ⟨c', hc', hdigits⟩ := ih q (by omega) (by omega)
      have hzero : Nat.toDigits 10 (10 * q) = Nat.toDigits 10 q ++ ['0'] :=
        (Nat.toDigits_append_toDigits (d := 0) (by decide) (by omega) (by decide)).symm
      refine ⟨c', hc', ?_⟩
      rw [hzero, List.rdropWhile_concat_pos _ _ _ (by decide), hdigits]
    · obtain ⟨ds, hds⟩ := exists_toDigits_eq_concat c
      have hlast : ∀ r < 10, r ≠ 0 → ¬decide (r.digitChar = '0') = true := by decide
      refine ⟨c, hten, ?_⟩
      have hnonzero := hlast (c % 10) (by omega) (by omega)
      rw [hds]
      exact List.rdropWhile_concat_neg (fun d => decide (d = '0')) _ _ hnonzero

end ConfigSchema
