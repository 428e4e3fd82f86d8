import ConfigSchema.Settings.Layer

/-!
What is left to a library for layered settings: reading the files in their formats, reading the
environment, putting layers together, and converting values. What the settings mean, and where they
come from in which order, is no part of it.
-/

namespace ConfigSchema

inductive SettingsError
  | missingFile (name : String)
  /-- The ending of the name does not tell a known format. -/
  | unknownFormat (name : String)
  | malformedFile (name : String)
  /-- A value that cannot be converted. -/
  | unusableValue
  deriving DecidableEq

def SettingsError.message : SettingsError → String
  | missingFile name => "configuration file \"" ++ name ++ "\" not found"
  | unknownFormat name =>
    "configuration file \"" ++ name ++ "\" is not of a registered file format"
  | malformedFile name => "malformed settings in " ++ name
  | unusableValue => "a setting has an unusable value"

structure SettingLibrary where
  /-- The layer of the file to which a name leads, if there is one. The first argument gives the texts
  of files by their names. -/
  file : (String → Option String) → String → Except SettingsError (Option SettingLayer)
  /-- The layer of the variables of an environment. -/
  environment : List (String × String) → SettingLayer
  /-- The fields after all layers, the first of which is the lowest. -/
  merge : List SettingLayer → SortedMap String SettingValue
  /-- A value as text. -/
  text? : SettingValue → Option String
  /-- A value as a truth value. -/
  truth? : SettingValue → Option Bool

end ConfigSchema
