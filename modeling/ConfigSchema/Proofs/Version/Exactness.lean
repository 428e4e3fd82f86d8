import ConfigSchema.Proofs.Except
import ConfigSchema.Proofs.Text.Digits
import ConfigSchema.Proofs.Version.Canonical

/-!
Versions have one text each. What a reader takes from the front of a text is what would be written
for the value that it gives back, so nothing but canonical texts gets through. Main statement:
`Version.parseChars_eq_ok_iff`, a text is read as a version exactly when it is the canonical text of
that version.
-/

namespace ConfigSchema

namespace Version

theorem eq_of_readNumber {part : VersionPart} {cs rest : List Char} {n : UInt64}
    (h : readNumber part cs = .ok (n, rest)) : cs = Nat.toDigits 10 n.toNat ++ rest := by
  have hdigits : ∀ c ∈ cs.takeWhile Char.isDigit, c.isDigit = true :=
    List.all_eq_true.1 List.all_takeWhile
  unfold readNumber at h
  split at h
  next => cases h
  next => cases h
  next => cases h
  next cs _ _ hzero hnil hcons =>
    have hne : cs.takeWhile Char.isDigit ≠ [] := by
      cases cs with
      | nil => exact fun htaken => hnil htaken rfl
      | cons c cs => exact fun htaken => hcons c cs htaken rfl
    have hvalue := toDigits_ofDigitChars hne hdigits hzero
    dsimp only at h
    split at h
    next hlt =>
      cases h
      rw [UInt64.toNat_ofNat_of_lt' hlt, hvalue, List.takeWhile_append_dropWhile]
    next => cases h

theorem eq_of_readPoint {part : VersionPart} {cs rest : List Char}
    (h : readPoint part cs = .ok rest) : cs = '.' :: rest := by
  cases cs with
  | nil => cases h
  | cons c cs =>
      rw [readPoint] at h
      split at h
      next hc =>
        cases h
        rw [hc]
      next => cases h

theorem chars_of_readPreIdentifier {cs : List Char} {id : PreIdentifier}
    (h : readPreIdentifier cs = .ok id) : id.chars = cs := by
  unfold readPreIdentifier at h
  split at h
  next =>
    split at h
    next =>
      cases h
      rfl
    next => cases h
  next => cases h

theorem chars_of_readBuildIdentifier {cs : List Char} {id : BuildIdentifier}
    (h : readBuildIdentifier cs = .ok id) : id.chars = cs := by
  unfold readBuildIdentifier at h
  split at h
  next =>
    cases h
    rfl
  next => cases h

theorem map_eq_of_mapM {α : Type} {chars : α → List Char}
    {read : List Char → Except VersionError α} (hread : ∀ cs id, read cs = .ok id → chars id = cs)
    {ws : List (List Char)} {ids : List α} (h : ws.mapM read = .ok ids) : ids.map chars = ws := by
  rw [mapM_eq_ok_iff] at h
  induction h with
  | nil => rfl
  | cons hid _ ih => rw [List.map_cons, hread _ _ hid, ih]

/-- Identifiers that are read were written behind their mark. -/
theorem eq_of_readIdentifiers {α : Type} {mark : Char} {chars : α → List Char}
    {read : List Char → Except VersionError α} (hread : ∀ cs id, read cs = .ok id → chars id = cs)
    {cs rest : List Char} {ids : Option (List α)}
    (h : readIdentifiers mark read cs = .ok (ids, rest)) :
    cs = (if (ids.getD []).isEmpty then []
      else mark :: Text.join '.' ((ids.getD []).map chars)) ++ rest := by
  cases cs with
  | nil =>
      cases h
      rfl
  | cons c cs =>
      rw [readIdentifiers] at h
      split at h
      next hc =>
        split at h
        next ids' hids =>
          cases h
          have hpieces : ids'.map chars = Text.splitAt '.' (cs.takeWhile isSuffixChar) :=
            map_eq_of_mapM hread hids
          have hne : ids'.isEmpty = false := by
            cases ids' with
            | nil => cases hpieces
            | cons => rfl
          simp only [Option.getD_some, hne, Bool.false_eq_true, if_false, hpieces,
            Text.join_splitAt, List.cons_append, List.takeWhile_append_dropWhile, hc]
        next => cases h
      next =>
        cases h
        rfl

/-- A text is read as a version exactly when it is the canonical text of the version. -/
theorem parseChars_eq_ok_iff {cs : List Char} {v : Version} :
    parseChars cs = .ok v ↔ cs = v.chars := by
  constructor
  · intro h
    unfold parseChars at h
    split at h
    next => cases h
    next =>
      simp only [bind_eq_ok_iff, Prod.exists] at h
      obtain ⟨major, _, hmajor, _, hpoint, minor, _, hminor, _, hpoint', patch, _, hpatch, pre, _,
        hpre, build, _, hbuild, h⟩ := h
      split at h
      next =>
        cases h
        have hsuffix := eq_of_readIdentifiers (fun _ _ => chars_of_readPreIdentifier) hpre
        have hbuilt := eq_of_readIdentifiers (fun _ _ => chars_of_readBuildIdentifier) hbuild
        rw [eq_of_readNumber hmajor, eq_of_readPoint hpoint, eq_of_readNumber hminor,
          eq_of_readPoint hpoint', eq_of_readNumber hpatch, hsuffix, hbuilt]
        simp [chars, numberChars, suffixChars, preChars, buildChars, Text.join]
      next => cases h
  · rintro rfl
    simpa [parse, text] using parse_text v

end Version

end ConfigSchema
