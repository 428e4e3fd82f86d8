import ConfigSchema.Json.Document
import ConfigSchema.Json.Spelling
import ConfigSchema.ValueType.Basic

/-!
The JSON form of types: a name, or an object whose one field names the kind of the type and holds
what it is made of.
-/

namespace ConfigSchema.ValueType

mutual

def document : ValueType → Document
  | dynamic => .string "dynamic"
  | string => .string "string"
  | number => .string "number"
  | bool => .string "bool"
  | list t => .tagged "list" t.document
  | set t => .tagged "set" t.document
  | map t => .tagged "map" t.document
  | tuple ts => .tagged "tuple" (.array (documents ts))
  | object ts => .tagged "object" (.object (fieldDocuments ts))

def documents : List ValueType → List Document
  | [] => []
  | t :: ts => t.document :: documents ts

def fieldDocuments {lo : Option String} :
    Entries String ValueType lo → List (String × Document)
  | .nil => []
  | .cons name _ t ts => (name, t.document) :: fieldDocuments ts

end

/-- The types without parts. -/
def ofName? (name : String) : Option ValueType :=
  if name = "dynamic" then some dynamic
  else if name = "string" then some string
  else if name = "number" then some number
  else if name = "bool" then some bool
  else none

mutual

/-- The type that a JSON value stands for in a spelling. -/
def ofJsonIn? (s : Spelling) : Json → Option ValueType
  | .string name => ofName? name
  | .object (.cons kind _ j .nil) =>
    if kind = "list" then (ofJsonIn? s j).map list
    else if kind = "set" then (ofJsonIn? s j).map set
    else if kind = "map" then (ofJsonIn? s j).map map
    else if kind = "tuple" then (elements? s j).map tuple
    else if kind = "object" then (fields? s j).map object
    else if s.isNothing j then ofName? kind
    else none
  | _ => none

def elements? (s : Spelling) : Json → Option (List ValueType)
  | .array items => ofItems? s items
  | _ => none

def ofItems? (s : Spelling) : List Json → Option (List ValueType)
  | [] => some []
  | j :: js =>
    match ofJsonIn? s j, ofItems? s js with
    | some t, some ts => some (t :: ts)
    | _, _ => none

def fields? (s : Spelling) : Json → Option (Entries String ValueType none)
  | .object fields => ofFields? s fields
  | _ => none

def ofFields? (s : Spelling) {lo : Option String} :
    Entries String Json lo → Option (Entries String ValueType lo)
  | .nil => some .nil
  | .cons name above j rest =>
    match ofJsonIn? s j, ofFields? s rest with
    | some t, some ts => some (.cons name above t ts)
    | _, _ => none

end

def ofJson? : Json → Option ValueType := ofJsonIn? .named

end ConfigSchema.ValueType
