import ConfigSchema.Proofs.Version.Exactness
import ConfigSchema.SchemaError

/-!
Names of versions of the language. White space around a name and one `v` in front of it count for
nothing, and a missing patch number is put in before the name is read, in front of the first hyphen
or plus. Main statement: the names of a version are its canonical text and, if its patch number is
zero, that text without it; nothing else is accepted, and every version is found under its own text.
-/

namespace ConfigSchema

namespace Text

theorem trim_of_forall {cs : List Char} (h : ∀ c ∈ cs, isBlank c = false) : trim cs = cs := by
  have hdrop : ∀ {ds : List Char}, (∀ c ∈ ds, isBlank c = false) → ds.dropWhile isBlank = ds := by
    intro ds hds
    cases ds with
    | nil => rfl
    | cons c ds => simp [hds c List.mem_cons_self]
  rw [trim, hdrop h, hdrop fun c hc => h c (List.mem_reverse.1 hc), List.reverse_reverse]

end Text

namespace Version

open Text (Stops)

/-- The first two numbers joined by a point. -/
def shortNumberChars (v : Version) : List Char :=
  Text.join '.' ([v.major, v.minor].map fun n => Nat.toDigits 10 n.toNat)

/-- The canonical text with the patch number left out. -/
def shortChars (v : Version) : List Char := v.shortNumberChars ++ v.suffixChars

/-- The canonical text of the version, or, if its patch number is zero, that text without it. -/
def NamedBy (v : Version) (body : List Char) : Prop :=
  body = v.chars ∨ v.patch = 0 ∧ body = v.shortChars

def isInNumbers (c : Char) : Bool := c ≠ '-' && c ≠ '+'

/-- The text with the patch number zero if its numbers have one point. -/
def withPatch (cs : List Char) : List Char :=
  if (cs.takeWhile isInNumbers).count '.' = 1 then
    cs.takeWhile isInNumbers ++ '.' :: '0' :: cs.dropWhile isInNumbers
  else cs

theorem point_notMem_toDigits (n : Nat) : '.' ∉ Nat.toDigits 10 n :=
  fun h => absurd (isDigit_toDigits h) (by decide)

theorem isInNumbers_of_isDigit {c : Char} (h : c.isDigit = true) : isInNumbers c = true := by
  have hminus : c ≠ '-' := by
    rintro rfl
    cases h
  have hplus : c ≠ '+' := by
    rintro rfl
    cases h
  simp [isInNumbers, hminus, hplus]

theorem isInNumbers_of_mem_join {ns : List UInt64} {c : Char}
    (h : c ∈ Text.join '.' (ns.map fun n => Nat.toDigits 10 n.toNat)) : isInNumbers c = true := by
  obtain rfl | ⟨w, hw, hc⟩ := Text.mem_join h
  · rfl
  · obtain ⟨n, -, rfl⟩ := List.mem_map.1 hw
    exact isInNumbers_of_isDigit (isDigit_toDigits hc)

theorem stops_suffixChars (v : Version) : Stops isInNumbers v.suffixChars := by
  rw [suffixChars]
  split
  · split
    · exact Text.stops_nil _
    · exact Text.stops_cons rfl
  · exact Text.stops_cons rfl

theorem numberChars_eq (v : Version) :
    v.numberChars = v.shortNumberChars ++ '.' :: Nat.toDigits 10 v.patch.toNat := by
  simp [numberChars, shortNumberChars, Text.join]

theorem count_shortNumberChars (v : Version) : v.shortNumberChars.count '.' = 1 := by
  have hnone : ∀ n : UInt64, (Nat.toDigits 10 n.toNat).count '.' = 0 := fun n =>
    List.count_eq_zero.2 (point_notMem_toDigits n.toNat)
  simp [shortNumberChars, Text.join, hnone]

theorem count_numberChars (v : Version) : v.numberChars.count '.' = 2 := by
  have hnone : (Nat.toDigits 10 v.patch.toNat).count '.' = 0 :=
    List.count_eq_zero.2 (point_notMem_toDigits v.patch.toNat)
  rw [numberChars_eq, List.count_append, List.count_cons_self, count_shortNumberChars, hnone]

theorem withPatch_chars (v : Version) : withPatch v.chars = v.chars := by
  have htaken : v.chars.takeWhile isInNumbers = v.numberChars :=
    Text.takeWhile_append (fun c hc => isInNumbers_of_mem_join hc) v.stops_suffixChars
  rw [withPatch, htaken, count_numberChars]
  rfl

theorem withPatch_shortChars {v : Version} (h : v.patch = 0) :
    withPatch v.shortChars = v.chars := by
  have htaken : v.shortChars.takeWhile isInNumbers = v.shortNumberChars :=
    Text.takeWhile_append (fun c hc => isInNumbers_of_mem_join hc) v.stops_suffixChars
  have hdropped : v.shortChars.dropWhile isInNumbers = v.suffixChars :=
    Text.dropWhile_append (fun c hc => isInNumbers_of_mem_join hc) v.stops_suffixChars
  rw [withPatch, htaken, hdropped, count_shortNumberChars, if_pos rfl, chars, numberChars_eq, h,
    List.append_assoc]
  rfl

/-- The patch number is put into the names of a version only, and only when it is missing. -/
theorem withPatch_eq_chars_iff {v : Version} {body : List Char} :
    withPatch body = v.chars ↔ v.NamedBy body := by
  constructor
  · intro h
    rw [withPatch] at h
    split at h
    next =>
      have hzero : ∀ c ∈ body.takeWhile isInNumbers ++ ['.', '0'], isInNumbers c = true := by
        intro c hc
        rcases List.mem_append.1 hc with hc | hc
        · exact List.all_eq_true.1 List.all_takeWhile c hc
        · obtain rfl | rfl : c = '.' ∨ c = '0' := by simpa using hc
          · rfl
          · rfl
      have hstops : Stops isInNumbers (body.dropWhile isInNumbers) := fun c hc => by
        have hhead := List.head?_dropWhile_not isInNumbers body
        rw [hc] at hhead
        simpa using hhead
      -- both texts end their numbers at the first hyphen or plus
      have hsplit : (body.takeWhile isInNumbers ++ ['.', '0']) ++ body.dropWhile isInNumbers =
          v.numberChars ++ v.suffixChars := by
        rw [List.append_assoc]
        exact h
      have hnumbers : body.takeWhile isInNumbers ++ ['.', '0'] = v.numberChars := by
        rw [← Text.takeWhile_append hzero hstops, hsplit]
        exact Text.takeWhile_append (fun c hc => isInNumbers_of_mem_join hc) v.stops_suffixChars
      have hsuffix : body.dropWhile isInNumbers = v.suffixChars := by
        rw [hnumbers] at hsplit
        exact List.append_cancel_left hsplit
      rw [numberChars_eq] at hnumbers
      obtain ⟨hshort, hpatch⟩ := Text.append_sep_inj (by decide) (point_notMem_toDigits _) hnumbers
      refine .inr ⟨?_, ?_⟩
      · have hvalue := congrArg (Nat.ofDigitChars 10 · 0) hpatch
        rw [Nat.ofDigitChars_ten_toDigits] at hvalue
        exact UInt64.toNat_inj.1 hvalue.symm
      · rw [shortChars, ← hshort, ← hsuffix, List.takeWhile_append_dropWhile]
    next => exact .inl h
  · rintro (rfl | ⟨hpatch, rfl⟩)
    · exact v.withPatch_chars
    · exact withPatch_shortChars hpatch

/-- The names of a version begin with a digit. -/
theorem NamedBy.exists_eq_cons {v : Version} {body : List Char} (h : v.NamedBy body) :
    ∃ c cs, body = c :: cs ∧ c.isDigit = true := by
  have hnumbers : ∃ rest, body = Nat.toDigits 10 v.major.toNat ++ rest := by
    rcases h with rfl | ⟨-, rfl⟩
    · exact ⟨_, by simp [chars, numberChars, Text.join]; rfl⟩
    · exact ⟨_, by simp [shortChars, shortNumberChars, Text.join]; rfl⟩
  obtain ⟨rest, rfl⟩ := hnumbers
  cases hdigits : Nat.toDigits 10 v.major.toNat with
  | nil => exact absurd hdigits Nat.toDigits_ne_nil
  | cons c cs => exact ⟨c, cs ++ rest, rfl, isDigit_toDigits (hdigits ▸ List.mem_cons_self)⟩

/-- A text without the `v` at its front. -/
def unmarked : List Char → List Char
  | 'v' :: cs => cs
  | cs => cs

theorem languageChars_eq (text : String) : languageChars text =
    if (unmarked (Text.trim text.toList)).isEmpty then none
    else some (withPatch (unmarked (Text.trim text.toList))) := by
  rw [withPatch, apply_ite some]
  rfl

theorem unmarked_eq_iff {v : Version} {cs body : List Char} (h : v.NamedBy body) :
    unmarked cs = body ↔ cs = body ∨ cs = 'v' :: body := by
  obtain ⟨c, body, rfl, hc⟩ := h.exists_eq_cons
  have hne : c ≠ 'v' := by
    rintro rfl
    cases hc
  constructor
  · rw [unmarked.eq_def]
    split
    · rintro rfl
      exact .inr rfl
    · exact .inl
  · rintro (rfl | rfl)
    · rw [unmarked.eq_def]
      split
      next hv => exact absurd (List.cons.inj hv).1 hne
      next => rfl
    · rfl

theorem ofLanguageText_eq_ok_iff {text : String} {v : Version} :
    ofLanguageText text = .ok v ↔ v.NamedBy (unmarked (Text.trim text.toList)) := by
  rw [ofLanguageText, languageChars_eq, ← withPatch_eq_chars_iff]
  generalize hbody : unmarked (Text.trim text.toList) = body
  cases body with
  | nil =>
      constructor
      · intro h
        cases h
      · intro h
        obtain ⟨c, cs, hnil, -⟩ := (withPatch_eq_chars_iff.1 h).exists_eq_cons
        cases hnil
  | cons c cs =>
      rw [← parseChars_eq_ok_iff]
      exact mapError_eq_ok_iff

theorem toNat_of_isUpper {c : Char} (h : c.isUpper = true) : 65 ≤ c.toNat ∧ c.toNat ≤ 90 := by
  have hrange : 'A'.val ≤ c.val ∧ c.val ≤ 'Z'.val := of_decide_eq_true h
  rw [UInt32.le_iff_toNat_le, UInt32.le_iff_toNat_le] at hrange
  exact hrange

theorem toNat_of_isLower {c : Char} (h : c.isLower = true) : 97 ≤ c.toNat ∧ c.toNat ≤ 122 := by
  obtain ⟨hlow, hhigh⟩ := Bool.and_eq_true_iff.1 h
  have hrange : 'a'.val ≤ c.val ∧ c.val ≤ 'z'.val :=
    ⟨of_decide_eq_true hlow, of_decide_eq_true hhigh⟩
  rw [UInt32.le_iff_toNat_le, UInt32.le_iff_toNat_le] at hrange
  exact hrange

theorem toNat_of_isIdentifierChar {c : Char} (h : isIdentifierChar c = true) :
    33 ≤ c.toNat ∧ c.toNat ≤ 122 := by
  have hclasses : (c.isUpper || c.isLower || c.isDigit || decide (c = '-')) = true := h
  simp only [Bool.or_eq_true, decide_eq_true_eq] at hclasses
  obtain ((hupper | hlower) | hdigit) | rfl := hclasses
  · have hrange := toNat_of_isUpper hupper
    omega
  · have hrange := toNat_of_isLower hlower
    omega
  · have hrange := isDigit_iff.1 hdigit
    omega
  · decide

theorem isBlank_of_isSuffixChar {c : Char} (h : isSuffixChar c = true) :
    Text.isBlank c = false := by
  rw [isSuffixChar, Bool.or_eq_true, decide_eq_true_eq] at h
  rcases h with h | rfl
  · have hrange := toNat_of_isIdentifierChar h
    simp only [Text.isBlank, Bool.or_eq_false_iff, Bool.and_eq_false_iff, decide_eq_false_iff_not]
    omega
  · decide

theorem isSuffixChar_of_mem_join {ws : List (List Char)} (hws : ∀ w ∈ ws, isIdentifier w = true)
    {c : Char} (h : c ∈ Text.join '.' ws) : isSuffixChar c = true := by
  obtain rfl | ⟨w, hw, hc⟩ := Text.mem_join h
  · rfl
  · rw [isSuffixChar, isIdentifierChar_of_mem (hws w hw) c hc, Bool.true_or]

theorem isIdentifier_toDigits (n : Nat) : isIdentifier (Nat.toDigits 10 n) = true := by
  have hall : (Nat.toDigits 10 n).all isIdentifierChar = true := List.all_eq_true.2 fun c hc => by
    simp [isIdentifierChar, Char.isAlphanum, isDigit_toDigits hc]
  simp [isIdentifier, hall]

theorem isBlank_of_mem_chars {v : Version} {c : Char} (h : c ∈ v.chars) :
    Text.isBlank c = false := by
  have hnumbers : ∀ w ∈ [v.major, v.minor, v.patch].map fun n => Nat.toDigits 10 n.toNat,
      isIdentifier w = true := List.forall_mem_map.2 fun n _ => isIdentifier_toDigits n.toNat
  have hpre : ∀ w ∈ v.pre.map (·.chars), isIdentifier w = true :=
    List.forall_mem_map.2 fun id _ => id.valid
  have hbuild : ∀ w ∈ v.build.map (·.chars), isIdentifier w = true :=
    List.forall_mem_map.2 fun id _ => id.valid
  rw [chars, suffixChars, List.mem_append, List.mem_append] at h
  rcases h with h | h | h
  · exact isBlank_of_isSuffixChar (isSuffixChar_of_mem_join hnumbers h)
  · split at h
    next => cases h
    next =>
      rcases List.mem_cons.1 h with rfl | h
      · rfl
      · exact isBlank_of_isSuffixChar (isSuffixChar_of_mem_join hpre h)
  · split at h
    next => cases h
    next =>
      rcases List.mem_cons.1 h with rfl | h
      · rfl
      · exact isBlank_of_isSuffixChar (isSuffixChar_of_mem_join hbuild h)

/-- The names of a version are its canonical text and, if its patch number is zero, that text
without it, both with or without a `v` in front and white space around. In particular every version
is read from its own text. -/
theorem ofLanguageText_names : (∀ (text : String) (v : Version), ofLanguageText text = .ok v ↔
      ∃ body, v.NamedBy body ∧
        (Text.trim text.toList = body ∨ Text.trim text.toList = 'v' :: body)) ∧
    ∀ v : Version, ofLanguageText v.text = .ok v := by
  have hnames : ∀ (text : String) (v : Version), ofLanguageText text = .ok v ↔
      ∃ body, v.NamedBy body ∧
        (Text.trim text.toList = body ∨ Text.trim text.toList = 'v' :: body) := by
    intro text v
    rw [ofLanguageText_eq_ok_iff]
    constructor
    · exact fun h => ⟨_, h, (unmarked_eq_iff h).1 rfl⟩
    · rintro ⟨body, hbody, htext⟩
      rwa [(unmarked_eq_iff hbody).2 htext]
  refine ⟨hnames, fun v => (hnames v.text v).2 ⟨v.chars, .inl rfl, .inl ?_⟩⟩
  rw [text, String.toList_ofList]
  exact Text.trim_of_forall fun c hc => isBlank_of_mem_chars hc

end Version

end ConfigSchema
