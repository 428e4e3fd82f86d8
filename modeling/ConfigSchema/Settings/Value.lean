import ConfigSchema.Decimal.Numeral
import ConfigSchema.SortedMap.Basic

/-!
Values of settings, and how a later one is laid over an earlier one. Tables are merged name by name,
and all else takes the place of what was there. Names are compared without regard to the case of
letters.
-/

namespace ConfigSchema

inductive SettingValue
  | string (s : String)
  | integer (n : Int)
  | double (x : ExtendedDouble)
  | bool (b : Bool)
  | array (items : List SettingValue)
  | table (fields : Entries String SettingValue none)
  /-- A place in a list that has not been filled. -/
  | blank

namespace SettingValue

instance : Inhabited SettingValue := ⟨blank⟩

/-- The fields of a table; other values have none. -/
def fields : SettingValue → Entries String SettingValue none
  | table fields => fields
  | _ => .nil

/-- The items of a list; other values have none. -/
def items : SettingValue → List SettingValue
  | array items => items
  | _ => []

/-- A character in lower case, as far as that is a letter of ASCII. The Kelvin sign is one more
capital of `k`. -/
def lowerChar (c : Char) : Char := if c = '\u212A' then 'k' else c.toLower

/-- A name in lower case. -/
def lowerName (name : String) : String := String.ofList (name.toList.map lowerChar)

mutual

/-- The value under a name after a layer has put a value there. A table without fields leaves a
value that is there. -/
def layered (old : Option SettingValue) : SettingValue → SettingValue
  | table .nil => old.getD (table .nil)
  | table (.cons name _ v rest) =>
    let base := (old.getD blank).fields
    let name := lowerName name
    table (mergeFields (base.insert name (layered (base.get? name) v)) rest)
  | v => v

/-- The fields of a table after those of a layer have been put there. -/
def mergeFields (base : Entries String SettingValue none) {lo : Option String} :
    Entries String SettingValue lo → Entries String SettingValue none
  | .nil => base
  | .cons name _ v rest =>
    let name := lowerName name
    mergeFields (base.insert name (layered (base.get? name) v)) rest

end

end SettingValue

end ConfigSchema
