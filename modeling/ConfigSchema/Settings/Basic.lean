import ConfigSchema.Json.Document
import ConfigSchema.Settings.Library
import ConfigSchema.Settings.Toml.Written

/-!
The settings of the tool, read from the fields that all layers leave. Values are converted where
the library can do that, and unknown names are passed over.
-/

namespace ConfigSchema

structure ToolSettings where
  /-- The version of the language when none is asked for. -/
  defaultVersion : String
  /-- Every change counts as incompatible. -/
  strict : Bool
  /-- Trees that were built are used again. -/
  cacheEnabled : Bool
  deriving DecidableEq

namespace SettingValue

/-- A value in a group. A group is a table, or a list with the values in their order. -/
def member? (group : Option SettingValue) (name : String) (position : Nat) :
    Option (Option SettingValue) :=
  match group with
  | none => some none
  | some (table fields) => some (fields.get? name)
  | some (array items) => some items[position]?
  | some _ => none

/-- A converted value in a group, or the default if there is none. -/
def read? {α : Type} (group : Option SettingValue) (name : String) (position : Nat) (default : α)
    (convert : SettingValue → Option α) : Option α :=
  (member? group name position).bind fun v => v.elim (some default) convert

end SettingValue

namespace ToolSettings

def default : ToolSettings := ⟨"0.12.0", false, true⟩

/-- The settings of the fields of all layers. -/
def ofFields? (library : SettingLibrary) (fields : SortedMap String SettingValue) :
    Option ToolSettings := do
  let schema := fields.get? "schema"
  let cache := fields.get? "cache"
  let defaultVersion ←
    SettingValue.read? schema "default_version" 0 default.defaultVersion library.text?
  let strict ← SettingValue.read? schema "strict" 1 default.strict library.truth?
  let cacheEnabled ← SettingValue.read? cache "enabled" 0 default.cacheEnabled library.truth?
  return ⟨defaultVersion, strict, cacheEnabled⟩

/-- The text of a file with the settings. -/
def toml (s : ToolSettings) : String :=
  "[schema]\ndefault_version = " ++ String.ofList (Toml.quote s.defaultVersion) ++
    "\nstrict = " ++ String.ofList (Document.literal s.strict) ++
    "\n\n[cache]\nenabled = " ++ String.ofList (Document.literal s.cacheEnabled) ++ "\n"

def document (s : ToolSettings) : Document :=
  .object [("schema", .object [("default_version", .string s.defaultVersion),
      ("strict", .bool s.strict)]),
    ("cache", .object [("enabled", .bool s.cacheEnabled)])]

/-- Settings in JSON: whatever is left out has its default, and nothing is converted. -/
def ofJson? (j : Json) : Option ToolSettings := do
  let fields ← j.fields?
  let schema ← fields.optional? "schema" .nil Json.fields?
  let cache ← fields.optional? "cache" .nil Json.fields?
  let defaultVersion ← schema.optional? "default_version" default.defaultVersion Json.string?
  let strict ← schema.optional? "strict" default.strict Json.bool?
  let cacheEnabled ← cache.optional? "enabled" default.cacheEnabled Json.bool?
  return ⟨defaultVersion, strict, cacheEnabled⟩

end ToolSettings

end ConfigSchema
