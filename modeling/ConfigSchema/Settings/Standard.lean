import ConfigSchema.Json.Basic
import ConfigSchema.Settings.Directory
import ConfigSchema.Settings.Environment
import ConfigSchema.Settings.Format
import ConfigSchema.Settings.Library

/-!
The library that the program comes with. A file may be asked for without its ending, of variables
that lead to the same place the later one counts, and values are converted where that is possible.
Of YAML it knows a part, and files beyond that are malformed to it.
-/

namespace ConfigSchema

namespace SettingFile

/-- The format of a file, told by the last part of its name, which has to be more than an ending. -/
def format? (name : String) : Option FileFormat :=
  (Directory.parts name).getLast?.bind fun part =>
    (FileFormat.endings.find? fun p => p.1.isSuffixOf part && p.1.length < part.length).map (·.2)

/-- A name with an ending added to its last part, behind which nothing stays; there is none if that
part is no name. -/
def withEnding? (name : String) (ending : List Char) : Option String :=
  match (Directory.parts name).reverse.dropWhile Directory.isHere with
  | [] => none
  | part :: parts =>
    if Directory.isAbove part then none
    else some (String.ofList (Text.join '/' ((part ++ ending) :: parts).reverse))

/-- The names with endings that a file may have when there is none of the given name. -/
def longerNames (name : String) : List (String × FileFormat) :=
  FileFormat.endings.filterMap fun p => (withEnding? name p.1).map fun longer => (longer, p.2)

/-- All names that a file may have. -/
def candidates (name : String) : List String := name :: (longerNames name).map (·.1)

/-- The format and the text of a file, if there is one. -/
def find? (file? : String → Option String) (name : String) :
    Except SettingsError (Option (FileFormat × String)) :=
  match file? name with
  | some text =>
    match format? name with
    | some format => .ok (some (format, text))
    | none => .error (.unknownFormat name)
  | none => .ok ((longerNames name).findSome? fun p => (file? p.1).map fun text => (p.2, text))

/-- A text without the byte order mark in front of it. -/
def withoutMark (text : String) : String :=
  match text.toList with
  | '\uFEFF' :: cs => String.ofList cs
  | _ => text

/-- The layer of a file, if there is one. -/
def layer? (file? : String → Option String) (name : String) :
    Except SettingsError (Option SettingLayer) := do
  match ← find? file? name with
  | some (format, text) =>
    match format.fields? (withoutMark text) with
    | some fields => return some (.ofFields fields)
    | none => throw (.malformedFile name)
  | none => return none

end SettingFile

namespace SettingValue

/-- A value as text. -/
def text? : SettingValue → Option String
  | string s => some s
  | integer n => some (String.ofList (decimalInt n))
  | double x => some (String.ofList x.text)
  | bool b => some (if b then "true" else "false")
  | _ => none

/-- A value as a truth value. Numbers other than zero are true. -/
def truth? : SettingValue → Option Bool
  | bool b => some b
  | integer n => some (n != 0)
  | double x => some !x.isZero
  | string s =>
    let word := lowerName s
    if word ∈ ["1", "true", "on", "yes"] then some true
    else if word ∈ ["0", "false", "off", "no"] then some false
    else none
  | _ => none

end SettingValue

/-- The library that the program comes with. -/
def SettingLibrary.standard : SettingLibrary :=
  ⟨SettingFile.layer?, Environment.layer, SettingLayer.merge, SettingValue.text?,
    SettingValue.truth?⟩

end ConfigSchema
