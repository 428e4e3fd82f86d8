import ConfigSchema.Json.Reader
import ConfigSchema.Settings.Ini
import ConfigSchema.Settings.Json5
import ConfigSchema.Settings.Ron
import ConfigSchema.Settings.Toml.Tables
import ConfigSchema.Settings.Yaml

/-!
The formats of files with settings, told by the endings of their names.
-/

namespace ConfigSchema

namespace SettingValue

mutual

/-- The value that JSON gives. Integers beyond 64 bits with a sign are doubles. -/
def ofJson : Json → SettingValue
  | .null => blank
  | .bool b => bool b
  | .number (.integer n) =>
    if n.value < 9223372036854775808 then integer n.value
    else double (ExtendedDouble.ofDecimal false n.value.toNat 0)
  | .number (.double x) => double (.finite x)
  | .string s => string s
  | .array js => array (ofJsonItems js)
  | .object fields => table (ofJsonFields fields)

def ofJsonItems : List Json → List SettingValue
  | [] => []
  | j :: js => ofJson j :: ofJsonItems js

def ofJsonFields {lo : Option String} : Entries String Json lo → Entries String SettingValue lo
  | .nil => .nil
  | .cons name above j rest => .cons name above (ofJson j) (ofJsonFields rest)

end

end SettingValue

inductive FileFormat
  | toml
  | json
  | json5
  | ron
  | yaml
  | ini
  deriving DecidableEq

namespace FileFormat

/-- The endings of file names and their formats, in the order in which they are tried. -/
def endings : List (List Char × FileFormat) :=
  [(".toml".toList, toml), (".json".toList, json), (".yaml".toList, yaml), (".yml".toList, yaml),
    (".ini".toList, ini), (".ron".toList, ron), (".json5".toList, json5)]

/-- The fields of a JSON object. -/
def jsonFields? (text : String) : Option (SortedMap String SettingValue) :=
  ((Json.ofText? text).bind Json.fields?).map SettingValue.ofJsonFields

/-- The fields of the table that a text describes. -/
def fields? (format : FileFormat) (text : String) : Option (SortedMap String SettingValue) :=
  match format with
  | toml => Toml.fields? text
  | ini => Ini.fields? text
  | json => jsonFields? text
  | json5 => Json5.fields? text
  | ron => Ron.fields? text
  | yaml => Yaml.fields? text

end FileFormat

end ConfigSchema
