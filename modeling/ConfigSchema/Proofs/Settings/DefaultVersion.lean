import ConfigSchema.Proofs.Decimal.FifteenDigits
import ConfigSchema.Proofs.Except
import ConfigSchema.Proofs.Settings.Environment
import ConfigSchema.Settings.Sources

/-!
The default version in the environment. The environment is the highest layer, so its variable
decides, whatever the files set and however they are read, and the version is the one that is named
there unless that name is read as a number whose digits do not come back. Main statement:
`ToolSettings.version_of_environment`.
-/

namespace ConfigSchema

open SettingLayer (Holds AgreeOutside Sets groupFields)

namespace ToolSettings

section Fields

variable {l : SettingLibrary} {m m' : SortedMap String SettingValue} {w : SettingValue}
  {settings : ToolSettings}

theorem ofFields?_eq_some_iff : ofFields? l m = some settings ↔
    SettingValue.read? (m.get? "schema") "default_version" 0 default.defaultVersion l.text? =
        some settings.defaultVersion ∧
      SettingValue.read? (m.get? "schema") "strict" 1 default.strict l.truth? =
          some settings.strict ∧
        SettingValue.read? (m.get? "cache") "enabled" 0 default.cacheEnabled l.truth? =
          some settings.cacheEnabled := by
  obtain ⟨defaultVersion, strict, cacheEnabled⟩ := settings
  simp only [ofFields?, Option.bind_eq_bind, Option.bind_eq_some_iff, Option.pure_def,
    Option.some.injEq, mk.injEq]
  constructor
  · rintro ⟨_, hversion, _, hstrict, _, hcache, rfl, rfl, rfl⟩
    exact ⟨hversion, hstrict, hcache⟩
  · rintro ⟨hversion, hstrict, hcache⟩
    exact ⟨_, hversion, _, hstrict, _, hcache, rfl, rfl, rfl⟩

/-- The settings other than the default version can be read when their groups are tables. -/
def OthersUsable (l : SettingLibrary) (m : SortedMap String SettingValue) : Prop :=
  (∀ v, (groupFields m "schema").get? "strict" = some v → (l.truth? v).isSome = true) ∧
    (SettingValue.read? (m.get? "cache") "enabled" 0 default.cacheEnabled l.truth?).isSome = true

/-- The text of the setting is the default version. -/
theorem defaultVersion_of_holds (h : Holds "schema" "default_version" w m)
    (hsettings : ofFields? l m = some settings) : l.text? w = some settings.defaultVersion := by
  obtain ⟨fields, hgroup, hname⟩ := h
  have hversion := (ofFields?_eq_some_iff.1 hsettings).1
  rw [SettingValue.read?, hgroup, SettingValue.member?, hname] at hversion
  exact hversion

/-- With a default version that is a text, the settings can be read if the others can. -/
theorem exists_ofFields?_iff (h : Holds "schema" "default_version" w m) {t : String}
    (htext : l.text? w = some t) :
    (∃ settings, ofFields? l m = some settings) ↔ OthersUsable l m := by
  obtain ⟨fields, hgroup, hname⟩ := h
  have hfields : groupFields m "schema" = fields := by
    rw [groupFields, hgroup]
    rfl
  have hversion : SettingValue.read? (m.get? "schema") "default_version" 0 default.defaultVersion
      l.text? = some t := by
    rw [SettingValue.read?, hgroup, SettingValue.member?, hname]
    exact htext
  have hstrict : (SettingValue.read? (m.get? "schema") "strict" 1 default.strict
      l.truth?).isSome = true ↔
        ∀ v, fields.get? "strict" = some v → (l.truth? v).isSome = true := by
    rw [SettingValue.read?, hgroup, SettingValue.member?]
    cases fields.get? "strict" with
    | none => simp
    | some v => simp
  rw [OthersUsable, hfields, ← hstrict, Option.isSome_iff_exists, Option.isSome_iff_exists]
  constructor
  · rintro ⟨settings, hsettings⟩
    obtain ⟨-, hstrict, hcache⟩ := ofFields?_eq_some_iff.1 hsettings
    exact ⟨⟨_, hstrict⟩, ⟨_, hcache⟩⟩
  · rintro ⟨⟨strict, hstrict⟩, ⟨cacheEnabled, hcache⟩⟩
    exact ⟨⟨t, strict, cacheEnabled⟩, ofFields?_eq_some_iff.2 ⟨hversion, hstrict, hcache⟩⟩

theorem othersUsable_iff_of_agreeOutside (h : AgreeOutside "schema" "default_version" m m') :
    OthersUsable l m ↔ OthersUsable l m' := by
  rw [OthersUsable, OthersUsable, h.names "strict" (by decide), h.groups "cache" (by decide)]

theorem othersUsable_of_ofFields? (h : ofFields? l m = some settings) : OthersUsable l m := by
  obtain ⟨-, hstrict, hcache⟩ := ofFields?_eq_some_iff.1 h
  refine ⟨fun v hv => ?_, Option.isSome_iff_exists.2 ⟨_, hcache⟩⟩
  unfold groupFields at hv
  -- only a table has fields
  cases hgroup : m.get? "schema" with
  | none => simp [hgroup, SettingValue.fields] at hv
  | some group =>
      cases group with
      | table fields =>
          rw [hgroup] at hv hstrict
          have hv : fields.get? "strict" = some v := hv
          rw [SettingValue.read?, SettingValue.member?, hv] at hstrict
          exact Option.isSome_iff_exists.2 ⟨_, hstrict⟩
      | _ => simp [hgroup, SettingValue.fields] at hv

end Fields

theorem load_eq_ok_iff {s : SettingSources} {request : Option String} {settings : ToolSettings} :
    load s request = .ok settings ↔ ∃ files, s.fileLayers request = .ok files ∧
      ofFields? s.library (s.library.merge (files ++ [s.library.environment s.environment])) =
        some settings := by
  simp only [load, SettingSources.layers, bind_eq_ok_iff]
  constructor
  · rintro ⟨layers, ⟨files, hfiles, ⟨⟩⟩, hload⟩
    refine ⟨files, hfiles, ?_⟩
    revert hload
    split
    next settings' hfields => exact fun hload => by rw [hfields, Except.ok.inj hload]
    next => exact fun hload => nomatch hload
  · rintro ⟨files, hfiles, hfields⟩
    refine ⟨_, ⟨files, hfiles, rfl⟩, ?_⟩
    rw [hfields]
    rfl

end ToolSettings

namespace Environment

/-- The variable with the default version. -/
def versionVariable : String := "TFSCHEMA__SCHEMA__DEFAULT_VERSION"

/-- A variable with the name leaves the default version as it is. -/
def leavesVersion (name : String) : Bool :=
  (steps? name).all (SettingStep.leadsAway "schema" "default_version")

theorem steps?_versionVariable :
    steps? versionVariable = some [.field "schema", .field "default_version"] := by
  decide

end Environment

namespace SettingSources

open Environment (versionVariable leavesVersion steps?_versionVariable)

variable {s : SettingSources} {text : String}

/-- The variable has the text, and no other variable leads to the default version. -/
structure NamesVersion (s : SettingSources) (text : String) : Prop where
  mem : (versionVariable, text) ∈ s.environment
  only : ∀ q ∈ s.environment, q = (versionVariable, text) ∨ leavesVersion q.1 = true

/-- What the environment sets besides the default version. -/
def otherEntries (s : SettingSources) : SettingLayer :=
  (s.library.environment s.environment).elsewhere "schema" "default_version"

/-- In whatever order the environment gives its variables, it sets the default version to what is
read from this one. -/
theorem NamesVersion.sets (h : s.NamesVersion text) (hl : s.library.KeepsPromises) :
    Sets "schema" "default_version" (Environment.value text)
      (s.library.environment s.environment) := by
  have honly : ∀ p ∈ s.library.environment s.environment,
      p = ([.field "schema", .field "default_version"], Environment.value text) ∨
        SettingStep.leadsAway "schema" "default_version" p.1 = true := by
    rintro ⟨steps, w⟩ hp
    obtain ⟨q, hq, hsteps, hread⟩ := hl.set_by_variables _ _ hp
    rcases h.only q hq with rfl | hleaves
    · rw [steps?_versionVariable, Option.some.injEq] at hsteps
      exact .inl (by rw [hsteps, hread.value_eq])
    · rw [leavesVersion, hsteps] at hleaves
      exact .inr hleaves
  obtain ⟨w, hw⟩ := hl.variables_set _ _ h.mem _ steps?_versionVariable
  refine ⟨?_, honly, (Environment.readAs_value text).ne_table, by decide, by decide⟩
  rcases honly _ hw with heq | haway
  · exact heq ▸ hw
  · cases haway

end SettingSources

namespace ToolSettings

section Environment

variable {s : SettingSources} {request : Option String} {text : String} {settings : ToolSettings}
  (hl : s.library.KeepsPromises) (hnames : s.NamesVersion text)

include hl hnames

/-- The variable decides the default version, whatever the files set. -/
theorem defaultVersion_of_environment (hload : load s request = .ok settings) :
    s.library.text? (Environment.value text) = some settings.defaultVersion := by
  obtain ⟨files, -, hfields⟩ := load_eq_ok_iff.1 hload
  exact defaultVersion_of_holds (hl.highest_wins files _ _ _ _ (hnames.sets hl)) hfields

/-- With the variable the settings can be loaded if the files can be read and, after the files and
the other variables, the other settings. -/
theorem exists_load_iff_of_environment {t : String}
    (htext : s.library.text? (Environment.value text) = some t) :
    (∃ settings, load s request = .ok settings) ↔ ∃ files, s.fileLayers request = .ok files ∧
      OthersUsable s.library (s.library.merge (files ++ [s.otherEntries])) := by
  have husable : ∀ files, (∃ settings, ofFields? s.library
      (s.library.merge (files ++ [s.library.environment s.environment])) = some settings) ↔
        OthersUsable s.library (s.library.merge (files ++ [s.otherEntries])) := by
    intro files
    rw [exists_ofFields?_iff (hl.highest_wins files _ _ _ _ (hnames.sets hl)) htext]
    exact (othersUsable_iff_of_agreeOutside
      (hl.others_stay files _ _ _ _ (hnames.sets hl))).symm
  simp only [load_eq_ok_iff]
  rw [exists_comm]
  refine exists_congr fun files => ?_
  rw [exists_and_left, husable]

end Environment

/-- With the name of a version in the environment, the settings can be loaded if the files can be
read and the other settings are usable, and so whenever they can without it. Whatever the files set,
the default version is the one that is named, unless the name is two numbers with a point between
them, the digits of which do not come back: because the second number ends in zero, or because there
is no double with them as its shortest digits. There is one for up to fifteen digits. -/
theorem version_of_environment {s : SettingSources} {request : Option String} {text : String}
    {v : Version} (hl : s.library.KeepsPromises) (hv : Version.ofLanguageText text = .ok v)
    (hnames : s.NamesVersion text) :
    ((∃ settings, load s request = .ok settings) ↔ ∃ files, s.fileLayers request = .ok files ∧
        OthersUsable s.library (s.library.merge (files ++ [s.otherEntries]))) ∧
      (∀ files settings, s.fileLayers request = .ok files →
        ofFields? s.library (s.library.merge (files ++ [s.otherEntries])) = some settings →
          ∃ settings', load s request = .ok settings') ∧
      (∀ settings, load s request = .ok settings →
        (settings.version = .ok v ↔ (text.toList = v.shortNumberChars →
          ¬10 ∣ v.minor.toNat ∧ v.HasShortest))) ∧
      (Double.digitCount v.major.toNat + Double.digitCount v.minor.toNat ≤ 15 →
        v.HasShortest) := by
  obtain ⟨t, htext, hversion⟩ := Version.exists_text_value hl hv
  have hload : (∃ settings, load s request = .ok settings) ↔ _ :=
    exists_load_iff_of_environment hl hnames htext
  refine ⟨hload, fun files settings hfiles hfields => ?_, fun settings hload => ?_,
    Digits.exists_value_eq_pointValue⟩
  · exact hload.2 ⟨files, hfiles, othersUsable_of_ofFields? hfields⟩
  · have hdefault := defaultVersion_of_environment hl hnames hload
    rw [htext, Option.some.injEq] at hdefault
    rw [version, ← hdefault]
    exact hversion

/-- A directory without files, and an environment. -/
def environmentOnly (entries : List (String × String)) : SettingSources :=
  ⟨.standard, fun _ => none, none, entries⟩

/-- A short name among other variables. -/
theorem version_of_environment_zeroThirteen : ∃ settings,
    load (environmentOnly [("HOME", "/root"), ("TFSCHEMA__SCHEMA__DEFAULT_VERSION", "0.13"),
      ("TFSCHEMA__CACHE__ENABLED", "false")]) none = .ok settings ∧
      settings.version = .ok (.release 0 13 0) := by
  have hv : Version.ofLanguageText "0.13" = .ok (.release 0 13 0) := rfl
  have hnames : (environmentOnly [("HOME", "/root"), ("TFSCHEMA__SCHEMA__DEFAULT_VERSION", "0.13"),
      ("TFSCHEMA__CACHE__ENABLED", "false")]).NamesVersion "0.13" := ⟨by decide, by decide⟩
  obtain ⟨-, hexists, hversion, hfew⟩ := @version_of_environment _ none _ _
    SettingLibrary.keepsPromises_standard hv hnames
  obtain ⟨settings, hload⟩ := hexists _ ⟨"0.12.0", false, false⟩ rfl rfl
  exact ⟨settings, hload, (hversion settings hload).2 fun _ => ⟨by decide, hfew (by decide)⟩⟩

/-- A minor number that ends in zero loses it. -/
theorem version_of_environment_zeroTen : ∃ settings,
    load (environmentOnly [("TFSCHEMA__SCHEMA__DEFAULT_VERSION", "0.10")]) none = .ok settings ∧
      Version.ofLanguageText "0.10" = .ok (.release 0 10 0) ∧
      settings.version = .ok (.release 0 1 0) := by
  have hload : (load (environmentOnly [("TFSCHEMA__SCHEMA__DEFAULT_VERSION", "0.10")])
      none).toOption = some ⟨"0.1", false, true⟩ := by decide +kernel
  exact ⟨_, toOption_eq_some_iff.1 hload, rfl, rfl⟩

end ToolSettings

end ConfigSchema
