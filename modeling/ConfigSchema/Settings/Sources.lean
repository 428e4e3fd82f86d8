import ConfigSchema.SchemaError
import ConfigSchema.Settings.Basic

/-!
Where settings come from: files at fixed places, the file of the user, a file that is asked for, and
the environment, each of which wins over those before it.
-/

namespace ConfigSchema

/-- What settings may come from, and the library that reads it. -/
structure SettingSources where
  library : SettingLibrary
  /-- The text of the file to which a name leads. -/
  file? : String → Option String
  /-- The text of the file of the user. -/
  userFile : Option String
  environment : List (String × String)

namespace SettingSources

/-- The places of files, the lowest first. -/
def places : List String := ["tfschema.toml", ".tfschema.toml", "config/tfschema.toml"]

/-- The name of the file of the user, in a directory of its own. -/
def userName : String := "tfschema.toml"

/-- The layer of a file that need not be there. -/
def place (s : SettingSources) (name : String) : Except SettingsError SettingLayer := do
  return (← s.library.file s.file? name).getD []

/-- The layer of the file of the user with a text. -/
def userLayer (s : SettingSources) (text : String) : Except SettingsError SettingLayer := do
  return (← s.library.file (fun name => [(userName, text)].lookup name) userName).getD []

/-- The layer of a file that has to be there. -/
def requested (s : SettingSources) (name : String) : Except SettingsError SettingLayer := do
  match ← s.library.file s.file? name with
  | some layer => return layer
  | none => throw (.missingFile name)

/-- The layers of the files, the lowest first. -/
def fileLayers (s : SettingSources) (request : Option String) :
    Except SettingsError (List SettingLayer) := do
  let fixed ← places.mapM s.place
  let user ← s.userFile.toList.mapM s.userLayer
  let asked ← request.toList.mapM s.requested
  return fixed ++ user ++ asked

/-- The layers, the lowest first. -/
def layers (s : SettingSources) (request : Option String) :
    Except SettingsError (List SettingLayer) := do
  return (← s.fileLayers request) ++ [s.library.environment s.environment]

end SettingSources

/-- The settings that the sources give, with a file that may be asked for. -/
def ToolSettings.load (s : SettingSources) (request : Option String) :
    Except SettingsError ToolSettings := do
  match ofFields? s.library (s.library.merge (← s.layers request)) with
  | some settings => return settings
  | none => throw .unusableValue

/-- The version of the language that is the default. -/
def ToolSettings.version (s : ToolSettings) : Except SchemaError Version :=
  Version.ofLanguageText s.defaultVersion

end ConfigSchema
