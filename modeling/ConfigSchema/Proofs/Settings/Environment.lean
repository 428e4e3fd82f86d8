import ConfigSchema.Proofs.Decimal.Plain
import ConfigSchema.Proofs.Settings.Library
import ConfigSchema.Proofs.Version.Language

/-!
Names of versions as values in the environment. Two numbers with a point between them are read as a
floating-point number, and every other name of a version is kept as a text. Main statement:
`Environment.exists_text_value`, when the text of the value names the same version again.
-/

namespace ConfigSchema

open Text (Stops stops_cons)

namespace Text

theorem exists_trim_eq (cs : List Char) : ∃ lead trail, cs = lead ++ (trim cs ++ trail) ∧
    (∀ c ∈ lead, isBlank c = true) ∧ ∀ c ∈ trail, isBlank c = true := by
  refine ⟨cs.takeWhile isBlank, ((cs.dropWhile isBlank).reverse.takeWhile isBlank).reverse, ?_,
    List.all_eq_true.1 List.all_takeWhile, fun c hc => ?_⟩
  · rw [trim, ← List.reverse_append, List.takeWhile_append_dropWhile, List.reverse_reverse,
      List.takeWhile_append_dropWhile]
  · exact List.all_eq_true.1 List.all_takeWhile c (List.mem_reverse.1 hc)

theorem isDigit_of_isBlank {c : Char} (h : isBlank c = true) : c.isDigit = false := by
  rw [← Bool.not_eq_true, isDigit_iff]
  intro hdigit
  simp only [isBlank, Bool.or_eq_true, Bool.and_eq_true, decide_eq_true_eq] at h
  omega

end Text

namespace Numeral

theorem takeSign_cons {c : Char} (hminus : c ≠ '-') (hplus : c ≠ '+') (cs : List Char) :
    takeSign (c :: cs) = (false, c :: cs) := by
  unfold takeSign
  split
  next h => exact absurd (List.cons.inj h).1 hminus
  next h => exact absurd (List.cons.inj h).1 hplus
  next => rfl

theorem point_mem_takeSign {cs : List Char} (h : '.' ∈ cs) : '.' ∈ (takeSign cs).2 := by
  unfold takeSign
  split
  · simpa using h
  · simpa using h
  · exact h

end Numeral

namespace ExtendedDouble

/-- A text with a point does not name an infinity or NaN. -/
theorem name_ne_of_point {cs : List Char} (h : '.' ∈ cs) (name : String)
    (hname : '.' ∉ name.toList) : String.ofList (cs.map Char.toLower) ≠ name := by
  rintro rfl
  refine hname ?_
  rw [String.toList_ofList]
  exact List.mem_map.2 ⟨'.', h, rfl⟩

/-- A text with a point whose first character cannot begin a number is no number. -/
theorem ofText?_eq_none {c : Char} {cs : List Char} (hpoint : '.' ∈ c :: cs)
    (hdigit : c.isDigit = false) (hc : c ∉ ['-', '+', '.']) : ofText? (c :: cs) = none := by
  simp only [List.mem_cons, List.not_mem_nil, or_false, not_or] at hc
  have hsign := Numeral.takeSign_cons hc.1 hc.2.1 cs
  have hdigits : Numeral.takeDigits (c :: cs) = ([], c :: cs) := by
    simp [Numeral.takeDigits, hdigit]
  have hnoPoint : ∀ cs', c :: cs = '.' :: cs' → False := fun _ h => hc.2.2 (List.cons.inj h).1
  have hinf := name_ne_of_point hpoint "inf" (by decide)
  have hinfinity := name_ne_of_point hpoint "infinity" (by decide)
  have hnan := name_ne_of_point hpoint "nan" (by decide)
  simp only [ofText?, hsign, hinf, hinfinity, hnan, or_self, if_false, hdigits]
  split
  next => rfl
  next h => simp at h

/-- Digits with a point among them are a number unless something follows that is no exponent. -/
theorem ofText?_point {whole fraction rest : List Char} (hne : whole ≠ [])
    (hwhole : ∀ c ∈ whole, c.isDigit = true) (hfraction : ∀ c ∈ fraction, c.isDigit = true)
    (hstops : Stops Char.isDigit rest) (hexponent : ∀ c, rest.head? = some c → c ≠ 'e' ∧ c ≠ 'E') :
    ofText? (whole ++ '.' :: (fraction ++ rest)) = if rest = [] then
      some (ofDecimal false (Nat.ofDigitChars 10 (whole ++ fraction) 0) (-(fraction.length : ℤ)))
    else none := by
  obtain ⟨c, cs, rfl⟩ := List.exists_cons_of_ne_nil hne
  have hc := hwhole c List.mem_cons_self
  have hsign : Numeral.takeSign (c :: cs ++ '.' :: (fraction ++ rest)) =
      (false, c :: cs ++ '.' :: (fraction ++ rest)) := by
    refine Numeral.takeSign_cons ?_ ?_ _
    · rintro rfl
      cases hc
    · rintro rfl
      cases hc
  have hpoint : '.' ∈ c :: cs ++ '.' :: (fraction ++ rest) := by simp
  have hinf := name_ne_of_point hpoint "inf" (by decide)
  have hinfinity := name_ne_of_point hpoint "infinity" (by decide)
  have hnan := name_ne_of_point hpoint "nan" (by decide)
  have hafter : Stops Char.isDigit ('.' :: (fraction ++ rest)) := stops_cons (by decide)
  simp only [ofText?, hsign, hinf, hinfinity, hnan, or_self, if_false,
    Digits.takeDigits_append hwhole hafter, Digits.takeDigits_append hfraction hstops]
  cases rest with
  | nil => simp [Numeral.exponentPart]
  | cons d ds =>
      have hd := hexponent d rfl
      simp [Numeral.exponentPart, hd]

end ExtendedDouble

namespace Environment

/-- A text with a point is neither a truth value nor an integer. -/
theorem value_of_point {text : String} (h : '.' ∈ text.toList) : value text =
    (ExtendedDouble.ofText? text.toList).elim (.string text) .double := by
  have hname : ∀ name : String, '.' ∉ name.toList → SettingValue.lowerName text ≠ name := by
    rintro _ hname rfl
    refine hname ?_
    rw [SettingValue.lowerName, String.toList_ofList]
    exact List.mem_map.2 ⟨'.', h, by decide⟩
  have htruth : ∀ b, ¬IsTruth text b := by
    intro b
    cases b
    · exact hname "false" (by decide)
    · exact hname "true" (by decide)
  have hinteger : integer? text.toList = none := by
    have hall : ((Numeral.takeSign text.toList).2.all Char.isDigit) = false :=
      List.all_eq_false.2 ⟨'.', Numeral.point_mem_takeSign h, by decide⟩
    simp [integer?, hall]
  rw [value_of_not_isTruth htruth, hinteger]

end Environment

namespace Version

open Double (digitCount)

/-- The floating-point number with the digits of the first two numbers around its point. -/
def shortNumber (v : Version) : ExtendedDouble :=
  .ofDecimal false (10 ^ digitCount v.minor.toNat * v.major.toNat + v.minor.toNat)
    (-(digitCount v.minor.toNat : ℤ))

/-- The first two numbers around a point are what the shortest digits of some double stand for. -/
def HasShortest (v : Version) : Prop :=
  ∃ x, (Digits.shortest x).value = Digits.pointValue v.major.toNat v.minor.toNat

theorem shortNumberChars_eq (v : Version) : v.shortNumberChars =
    Nat.toDigits 10 v.major.toNat ++ '.' :: Nat.toDigits 10 v.minor.toNat := by
  simp [shortNumberChars, Text.join]

/-- A name begins with two numbers, and what follows them is no exponent. -/
theorem NamedBy.exists_eq_append {v : Version} {body : List Char} (h : v.NamedBy body) :
    ∃ rest, body = v.shortNumberChars ++ rest ∧
      ∀ c, rest.head? = some c → c ∈ ['.', '-', '+'] := by
  have hsuffix : ∀ c, v.suffixChars.head? = some c → c ∈ ['.', '-', '+'] := by
    intro c hc
    unfold suffixChars at hc
    split at hc
    · split at hc
      · cases hc
      · cases hc
        decide
    · cases hc
      decide
  rcases h with rfl | ⟨-, rfl⟩
  · refine ⟨'.' :: (Nat.toDigits 10 v.patch.toNat ++ v.suffixChars), ?_, ?_⟩
    · rw [chars, numberChars_eq, List.append_assoc, List.cons_append]
    · rintro _ ⟨⟩
      decide
  · exact ⟨v.suffixChars, rfl, hsuffix⟩

/-- The numbers of a version make a number, unless something follows them. -/
theorem ofText?_shortNumberChars_append {v : Version} {rest : List Char}
    (hrest : ∀ c, rest.head? = some c → c ∈ ['.', '-', '+'] ∨ Text.isBlank c = true) :
    ExtendedDouble.ofText? (v.shortNumberChars ++ rest) =
      if rest = [] then some v.shortNumber else none := by
  have hmark : ∀ c ∈ ['.', '-', '+'], c.isDigit = false ∧ c ≠ 'e' ∧ c ≠ 'E' := by
    intro c hc
    obtain rfl | rfl | rfl : c = '.' ∨ c = '-' ∨ c = '+' := by simpa using hc
    all_goals decide
  have hstops : Stops Char.isDigit rest := fun c hc =>
    (hrest c hc).elim (fun h => (hmark c h).1) Text.isDigit_of_isBlank
  have hexponent : ∀ c, rest.head? = some c → c ≠ 'e' ∧ c ≠ 'E' := by
    intro c hc
    rcases hrest c hc with h | h
    · exact (hmark c h).2
    · constructor
      · rintro rfl
        cases h
      · rintro rfl
        cases h
  rw [shortNumberChars_eq, List.append_assoc, List.cons_append,
    ExtendedDouble.ofText?_point Nat.toDigits_ne_nil (fun _ => isDigit_toDigits)
      (fun _ => isDigit_toDigits) hstops hexponent, Digits.ofDigitChars_toDigits_append]
  rfl

theorem of_mem_shortNumberChars {v : Version} {c : Char} (h : c ∈ v.shortNumberChars) :
    c.isDigit = true ∨ c = '.' := by
  rw [shortNumberChars_eq] at h
  rcases List.mem_append.1 h with h | h
  · exact .inl (isDigit_toDigits h)
  · rcases List.mem_cons.1 h with rfl | h
    · exact .inr rfl
    · exact .inl (isDigit_toDigits h)

/-- Of the names of a version, two numbers with a point between them are a number. -/
theorem ofText?_of_ofLanguageText {text : String} {v : Version} (h : ofLanguageText text = .ok v) :
    '.' ∈ text.toList ∧ ExtendedDouble.ofText? text.toList =
      if text.toList = v.shortNumberChars then some v.shortNumber else none := by
  have hnamed := ofLanguageText_eq_ok_iff.1 h
  have hmarked := (unmarked_eq_iff hnamed).1 rfl
  obtain ⟨lead, trail, htext, hlead, htrail⟩ := Text.exists_trim_eq text.toList
  obtain ⟨rest, hbody, hrest⟩ := hnamed.exists_eq_append
  rw [hbody] at hmarked
  have hpoint : '.' ∈ text.toList := by
    have hmem : '.' ∈ Text.trim text.toList := by
      rcases hmarked with hmarked | hmarked <;> simp [hmarked, shortNumberChars_eq]
    rw [htext]
    exact List.mem_append_right _ (List.mem_append_left _ hmem)
  refine ⟨hpoint, ?_⟩
  -- a text in front of which there is something else begins like no number
  have hfront : ∀ c cs, text.toList = c :: cs → c.isDigit = false → c ∉ ['-', '+', '.'] →
      ExtendedDouble.ofText? text.toList =
        if text.toList = v.shortNumberChars then some v.shortNumber else none := by
    intro c cs hcons hdigit hc
    rw [hcons] at hpoint ⊢
    rw [ExtendedDouble.ofText?_eq_none hpoint hdigit hc, if_neg]
    intro hshort
    rcases of_mem_shortNumberChars (hshort ▸ List.mem_cons_self) with h | rfl
    · rw [hdigit] at h
      cases h
    · simp at hc
  cases lead with
  | cons c cs =>
      have hc := hlead c List.mem_cons_self
      refine hfront c _ htext (Text.isDigit_of_isBlank hc) fun hmem => ?_
      obtain rfl | rfl | rfl : c = '-' ∨ c = '+' ∨ c = '.' := by simpa using hmem
      all_goals cases hc
  | nil =>
      rcases hmarked with hmarked | hmarked
      · rw [hmarked, List.nil_append, List.append_assoc] at htext
        have hhead : ∀ c, (rest ++ trail).head? = some c →
            c ∈ ['.', '-', '+'] ∨ Text.isBlank c = true := by
          intro c hc
          cases rest with
          | nil => exact .inr (htrail c (List.mem_of_head? hc))
          | cons d ds => exact .inl (hrest c hc)
        rw [htext, ofText?_shortNumberChars_append hhead]
        simp
      · rw [hmarked] at htext
        exact hfront 'v' _ htext (by decide) (by decide)

/-- Of the names of a version, two numbers with a point between them are read as a number. -/
theorem value_of_ofLanguageText {text : String} {v : Version} (h : ofLanguageText text = .ok v) :
    Environment.value text =
      if text.toList = v.shortNumberChars then .double v.shortNumber else .string text := by
  obtain ⟨hpoint, htext⟩ := ofText?_of_ofLanguageText h
  rw [Environment.value_of_point hpoint, htext]
  by_cases hshort : text.toList = v.shortNumberChars
  · rw [if_pos hshort, if_pos hshort, Option.elim_some]
  · rw [if_neg hshort, if_neg hshort, Option.elim_none]

theorem ofLanguageText_ofList_iff {cs : List Char} (hcs : ∀ c ∈ cs, c.isDigit = true ∨ c = '.')
    {v : Version} : ofLanguageText (String.ofList cs) = .ok v ↔ v.NamedBy cs := by
  have hblank : ∀ c ∈ cs, Text.isBlank c = false := by
    intro c hc
    rcases hcs c hc with h | rfl
    · by_contra hblank
      rw [Bool.not_eq_false] at hblank
      rw [Text.isDigit_of_isBlank hblank] at h
      cases h
    · rfl
  have hunmarked : unmarked cs = cs := by
    rw [unmarked.eq_def]
    split
    next => simpa using hcs 'v' List.mem_cons_self
    next => rfl
  rw [ofLanguageText_eq_ok_iff, String.toList_ofList, Text.trim_of_forall hblank, hunmarked]

theorem NamedBy.eq_shortChars {v : Version} {body : List Char} (h : v.NamedBy body)
    (hpoint : body.count '.' ≤ 1) : body = v.shortChars := by
  rcases h with rfl | ⟨-, rfl⟩
  · rw [chars, List.count_append, count_numberChars] at hpoint
    omega
  · rfl

theorem major_lt (v : Version) : v.major.toNat < 10 ^ 250 :=
  v.major.toNat_lt.trans (by decide)

/-- The value that the environment has for a name of a version can be read as a text. The text names
the version again unless the value is a number, and then if its digits come back. -/
theorem exists_text_value {l : SettingLibrary} (hl : l.KeepsPromises) {text : String} {v : Version}
    (h : ofLanguageText text = .ok v) :
    ∃ t, l.text? (Environment.value text) = some t ∧ (ofLanguageText t = .ok v ↔
      (text.toList = v.shortNumberChars → ¬10 ∣ v.minor.toNat ∧ v.HasShortest)) := by
  rw [value_of_ofLanguageText h]
  by_cases hshort : text.toList = v.shortNumberChars
  · obtain ⟨x, -, htext⟩ :=
      ExtendedDouble.exists_text_ofDecimal v.major_lt v.minor.toNat
    have hreadable := Digits.readable_shortest x
    have hsame : v.shortNumber.text = v.shortNumberChars ↔ v.NamedBy v.shortNumber.text := by
      have hname : v.NamedBy v.shortNumberChars := by
        rw [← ofLanguageText_ofList_iff fun _ => of_mem_shortNumberChars, ← hshort,
          String.ofList_toList]
        exact h
      refine ⟨fun heq => heq ▸ hname, fun hnamed => ?_⟩
      have hcount : v.shortNumber.text.count '.' ≤ 1 := by
        rw [shortNumber, htext]
        exact Digits.count_plain_le hreadable
      exact (hnamed.eq_shortChars hcount).trans
        (hname.eq_shortChars v.count_shortNumberChars.le).symm
    have hdigits : ∀ c ∈ v.shortNumber.text, c.isDigit = true ∨ c = '.' := fun c hc =>
      Digits.of_mem_plain hreadable (htext ▸ hc)
    refine ⟨_, by rw [if_pos hshort, hl.text_double], ?_⟩
    rw [imp_iff_right hshort, ofLanguageText_ofList_iff hdigits, ← hsame, shortNumberChars_eq]
    exact ExtendedDouble.text_ofDecimal_iff v.major_lt
  · refine ⟨text, by rw [if_neg hshort, hl.text_string], ?_⟩
    simp [h, hshort]

end Version

end ConfigSchema
