import ConfigSchema.Proofs.Text.Prefix
import ConfigSchema.Version.Parser

/-!
Canonical texts of versions. Each reader of a version takes from a text exactly what was written for
its part, since what follows begins with a character that cannot belong to the part. Main statement:
the canonical text of a version is read as that version.
-/

namespace ConfigSchema

namespace Text

theorem mem_join {sep c : Char} {ws : List (List Char)} (h : c ∈ join sep ws) :
    c = sep ∨ ∃ w ∈ ws, c ∈ w := by
  induction ws with
  | nil => cases h
  | cons w ws ih =>
      cases ws with
      | nil => exact .inr ⟨w, List.mem_singleton_self w, h⟩
      | cons v ws =>
          rw [join, List.mem_append, List.mem_cons] at h
          · obtain h | rfl | h := h
            · exact .inr ⟨w, List.mem_cons_self, h⟩
            · exact .inl rfl
            · obtain h | ⟨u, hu, hc⟩ := ih h
              · exact .inl h
              · exact .inr ⟨u, List.mem_cons_of_mem w hu, hc⟩
          · simp

end Text

/-- Only zero begins with the digit zero. -/
theorem head?_toDigits_ne {n : Nat} (hn : 0 < n) : (Nat.toDigits 10 n).head? ≠ some '0' := by
  induction n using Nat.strongRecOn with
  | _ n ih =>
      rw [Nat.toDigits_eq_if (by decide)]
      split
      next hsmall =>
        have hdigit : ∀ m < 10, 0 < m → Nat.digitChar m ≠ '0' := by decide
        simpa using hdigit n hsmall hn
      next hlarge =>
        have hquotient : (Nat.toDigits 10 (n / 10)).head? ≠ some '0' :=
          ih (n / 10) (by omega) (by omega)
        cases hdigits : Nat.toDigits 10 (n / 10) with
        | nil => exact absurd hdigits Nat.toDigits_ne_nil
        | cons c cs =>
            rw [hdigits] at hquotient
            exact hquotient

theorem toDigits_ne_leadingZero {n : Nat} {c : Char} {cs : List Char} :
    Nat.toDigits 10 n ≠ '0' :: c :: cs := by
  intro h
  obtain rfl | hn := Nat.eq_zero_or_pos n
  · cases h
  · exact head?_toDigits_ne hn (by rw [h]; rfl)

namespace Version

open Text (Stops)

theorem readNumber_toDigits (part : VersionPart) (n : UInt64) {rest : List Char}
    (h : Stops Char.isDigit rest) :
    readNumber part (Nat.toDigits 10 n.toNat ++ rest) = .ok (n, rest) := by
  have hdigits : (Nat.toDigits 10 n.toNat ++ rest).takeWhile Char.isDigit =
      Nat.toDigits 10 n.toNat := Text.takeWhile_append (fun c hc => isDigit_toDigits hc) h
  have hrest : (Nat.toDigits 10 n.toNat ++ rest).dropWhile Char.isDigit = rest :=
    Text.dropWhile_append (fun c hc => isDigit_toDigits hc) h
  have hvalue : Nat.ofDigitChars 10 (Nat.toDigits 10 n.toNat) 0 = n.toNat :=
    Nat.ofDigitChars_ten_toDigits
  unfold readNumber
  rw [hdigits, hrest]
  split
  next h _ => exact absurd h Nat.toDigits_ne_nil
  next h _ => exact absurd h Nat.toDigits_ne_nil
  next h => exact absurd h toDigits_ne_leadingZero
  next =>
    rw [hvalue]
    simp [n.toNat_lt]

theorem readPreIdentifier_chars (id : PreIdentifier) : readPreIdentifier id.chars = .ok id := by
  rw [readPreIdentifier, dif_pos id.valid, dif_pos id.canonical]

theorem readBuildIdentifier_chars (id : BuildIdentifier) :
    readBuildIdentifier id.chars = .ok id := by
  rw [readBuildIdentifier, dif_pos id.valid]

theorem isIdentifierChar_of_mem {cs : List Char} (h : isIdentifier cs = true) :
    ∀ c ∈ cs, isIdentifierChar c = true := by
  rw [isIdentifier, Bool.and_eq_true, List.all_eq_true] at h
  exact h.2

/-- Identifiers that are written behind their mark are read, whatever follows them. -/
theorem readIdentifiers_written {α : Type} {mark : Char} {chars : α → List Char}
    {read : List Char → Except VersionError α} (hread : ∀ id, read (chars id) = .ok id)
    (hvalid : ∀ id, isIdentifier (chars id) = true) (ids : List α) {rest : List Char}
    (hrest : Stops (fun c => isSuffixChar c || c = mark) rest) :
    readIdentifiers mark read
        ((if ids.isEmpty then [] else mark :: Text.join '.' (ids.map chars)) ++ rest) =
      .ok (if ids.isEmpty then none else some ids, rest) := by
  cases ids with
  | nil =>
      cases rest with
      | nil => rfl
      | cons c cs =>
          have hmark : c ≠ mark := by
            have hc := hrest c rfl
            simp only [Bool.or_eq_false_iff, decide_eq_false_iff_not] at hc
            exact hc.2
          simp [readIdentifiers, hmark]
  | cons id ids =>
      have hbody : ∀ c ∈ Text.join '.' ((id :: ids).map chars), isSuffixChar c = true := by
        intro c hc
        obtain rfl | ⟨w, hw, hc⟩ := Text.mem_join hc
        · rfl
        · obtain ⟨id', -, rfl⟩ := List.mem_map.1 hw
          rw [isSuffixChar, isIdentifierChar_of_mem (hvalid id') c hc, Bool.true_or]
      have hstops : Stops isSuffixChar rest := fun c hc => (Bool.or_eq_false_iff.1 (hrest c hc)).1
      have hsplit : Text.splitAt '.' (Text.join '.' ((id :: ids).map chars)) =
          (id :: ids).map chars := by
        refine Text.splitAt_join (by simp) fun w hw hpoint => ?_
        obtain ⟨id', -, rfl⟩ := List.mem_map.1 hw
        exact absurd (isIdentifierChar_of_mem (hvalid id') '.' hpoint) (by decide)
      have hids : ((id :: ids).map chars).mapM read = .ok (id :: ids) := by
        generalize id :: ids = ids
        induction ids with
        | nil => rfl
        | cons id ids ih =>
            rw [List.map_cons, List.mapM_cons, hread, ih]
            rfl
      have hwritten : (if (id :: ids).isEmpty then []
          else mark :: Text.join '.' ((id :: ids).map chars)) ++ rest =
            mark :: (Text.join '.' ((id :: ids).map chars) ++ rest) := rfl
      rw [hwritten, readIdentifiers, if_pos rfl, Text.takeWhile_append hbody hstops,
        Text.dropWhile_append hbody hstops, hsplit, hids]
      rfl

theorem readPoint_cons (part : VersionPart) (cs : List Char) :
    readPoint part ('.' :: cs) = .ok cs := rfl

/-- The canonical text of a version is read as that version. -/
theorem parse_text (v : Version) : parse v.text = .ok v := by
  obtain ⟨major, minor, patch, pre, build⟩ := v
  let buildPart := if build.isEmpty then [] else '+' :: Text.join '.' (build.map (·.chars))
  let prePart := if pre.isEmpty then [] else '-' :: Text.join '.' (pre.map (·.chars))
  -- a part ends where the next one begins with its mark, or at the end of the text
  have hbuildStops : Stops (fun c => isSuffixChar c || c = '-') buildPart := by
    dsimp only [buildPart]
    split
    · exact Text.stops_nil _
    · exact Text.stops_cons (by decide)
  have hsuffixStops : Stops Char.isDigit (prePart ++ buildPart) := by
    dsimp only [prePart, buildPart]
    split
    · split
      · exact Text.stops_nil _
      · exact Text.stops_cons (by decide)
    · exact Text.stops_cons (by decide)
  have hchars : (⟨major, minor, patch, pre, build⟩ : Version).chars =
      Nat.toDigits 10 major.toNat ++ '.' :: (Nat.toDigits 10 minor.toNat ++
        '.' :: (Nat.toDigits 10 patch.toNat ++ (prePart ++ buildPart))) := by
    simp [chars, numberChars, suffixChars, Text.join, preChars, buildChars, prePart, buildPart]
  have hmajor : readNumber .major (Nat.toDigits 10 major.toNat ++
      '.' :: (Nat.toDigits 10 minor.toNat ++
        '.' :: (Nat.toDigits 10 patch.toNat ++ (prePart ++ buildPart)))) = .ok (major, _) :=
    readNumber_toDigits .major major (Text.stops_cons (by decide))
  have hminor : readNumber .minor (Nat.toDigits 10 minor.toNat ++
      '.' :: (Nat.toDigits 10 patch.toNat ++ (prePart ++ buildPart))) = .ok (minor, _) :=
    readNumber_toDigits .minor minor (Text.stops_cons (by decide))
  have hpatch : readNumber .patch (Nat.toDigits 10 patch.toNat ++ (prePart ++ buildPart)) =
      .ok (patch, _) := readNumber_toDigits .patch patch hsuffixStops
  have hpre : readIdentifiers '-' readPreIdentifier (prePart ++ buildPart) = .ok (_, buildPart) :=
    readIdentifiers_written readPreIdentifier_chars PreIdentifier.valid pre hbuildStops
  have hbuild : readIdentifiers '+' readBuildIdentifier (buildPart ++ []) = .ok (_, []) :=
    readIdentifiers_written readBuildIdentifier_chars BuildIdentifier.valid build
      (Text.stops_nil _)
  rw [List.append_nil] at hbuild
  have hne : (Nat.toDigits 10 major.toNat ++ '.' :: (Nat.toDigits 10 minor.toNat ++
      '.' :: (Nat.toDigits 10 patch.toNat ++ (prePart ++ buildPart)))).isEmpty = false := by
    simp
  rw [parse, text, String.toList_ofList, hchars, parseChars, hne]
  simp only [Bool.false_eq_true, if_false, hmajor, readPoint_cons, hminor, hpatch, hpre,
    hbuild, Except.bind, bind, pure, Except.pure]
  cases pre <;> cases build <;> rfl

end Version

end ConfigSchema
