import Mathlib.Data.String.Basic

/-!
Texts compared by their bytes in UTF-8. The bytes of a smaller character are smaller, whatever
follows, so texts have the same order whether they are compared by characters or by bytes.
-/

namespace ConfigSchema.Text

/-- The bytes of a text in UTF-8. -/
def bytes (s : String) : List UInt8 := s.toUTF8.data.toList

theorem bytes_eq_flatMap (s : String) : bytes s = s.toList.flatMap String.utf8EncodeChar := by
  have hencoded : (String.ofList s.toList).toUTF8.data.toList =
      s.toList.flatMap String.utf8EncodeChar := by
    rw [String.toUTF8, String.toByteArray_ofList, List.utf8Encode, List.data_toByteArray]
  rwa [String.ofList_toList] at hencoded

theorem toNat_char_lt (c : Char) : c.val.toNat < 1114112 := by
  rcases c.valid with h | h
  · exact Nat.lt_trans h (by decide)
  · exact h.2

/-- Numbers are compared by their digits to the base 64, the last one of which counts least. -/
theorem lt_iff_digits (m n : Nat) :
    m < n ↔ m / 64 < n / 64 ∨ m / 64 = n / 64 ∧ m % 64 < n % 64 := by
  omega

/-- The bytes of a smaller character are smaller, whatever follows. -/
theorem utf8EncodeChar_append_lt {c d : Char} (h : c < d) (bs ds : List UInt8) :
    String.utf8EncodeChar c ++ bs < String.utf8EncodeChar d ++ ds := by
  have hlt : c.val.toNat < d.val.toNat := h
  have hbound := toNat_char_lt d
  have hlast := lt_iff_digits c.val.toNat d.val.toNat
  have hthird := lt_iff_digits (c.val.toNat / 64) (d.val.toNat / 64)
  have hsecond := lt_iff_digits (c.val.toNat / 4096) (d.val.toNat / 4096)
  rw [Nat.div_div_eq_div_mul, Nat.div_div_eq_div_mul] at hthird hsecond
  unfold String.utf8EncodeChar
  dsimp only
  -- one case for each pair of lengths
  split_ifs <;>
    simp only [List.cons_append, List.nil_append, List.cons_lt_cons_iff, UInt8.lt_iff_toNat_lt,
      ← UInt8.toNat_inj, UInt8.toNat_ofNat'] <;>
    simp (disch := omega) only [Nat.mod_eq_of_lt (b := 256), Nat.mod_eq_of_lt (b := 8)] <;>
    omega

theorem flatMap_utf8EncodeChar_lt {cs ds : List Char} (h : cs < ds) :
    cs.flatMap String.utf8EncodeChar < ds.flatMap String.utf8EncodeChar := by
  induction cs generalizing ds with
  | nil =>
      cases ds with
      | nil => exact absurd h (List.lt_irrefl [])
      | cons d ds =>
          obtain ⟨b, bs, hb⟩ := List.exists_cons_of_ne_nil (String.utf8EncodeChar_ne_nil (c := d))
          rw [List.flatMap_nil, List.flatMap_cons, hb]
          exact List.nil_lt_cons ..
  | cons c cs ih =>
      cases ds with
      | nil => exact absurd h (List.not_lt_nil _)
      | cons d ds =>
          rw [List.flatMap_cons, List.flatMap_cons]
          rcases List.cons_lt_cons_iff.1 h with hcd | ⟨rfl, hrest⟩
          · exact utf8EncodeChar_append_lt hcd _ _
          · exact List.append_left_lt (ih hrest)

/-- Texts have the same order by their bytes as by their characters. -/
theorem bytes_le_bytes_iff {s t : String} : bytes s ≤ bytes t ↔ s ≤ t := by
  have hlt : ∀ {s t : String}, s < t → bytes s < bytes t := fun h => by
    rw [bytes_eq_flatMap, bytes_eq_flatMap]
    exact flatMap_utf8EncodeChar_lt (String.lt_iff_toList_lt.1 h)
  constructor
  · intro h
    exact le_of_not_gt fun hts => absurd (hlt hts) (List.not_lt.2 h)
  · intro h
    rcases h.lt_or_eq with h | rfl
    · exact List.le_of_lt (hlt h)
    · exact List.le_refl _

theorem bytes_injective : Function.Injective bytes := fun _ _ h =>
  le_antisymm (bytes_le_bytes_iff.1 (h ▸ List.le_refl _)) (bytes_le_bytes_iff.1 (h ▸ List.le_refl _))

end ConfigSchema.Text
