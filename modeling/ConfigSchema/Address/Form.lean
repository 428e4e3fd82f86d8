import ConfigSchema.Address.Basic

/-!
The JSON forms of addresses and of what they resolve to.
-/

namespace ConfigSchema

namespace AddressStep

def document : AddressStep → Document
  | fixed segment => .object [("step", .string "static"), ("value", .string segment)]
  | label index => .object [("step", .string "label_value"), ("index", .ofWord index)]
  | attributeValue name isOptional =>
    .object [("step", .string "attr_value"), ("name", .string name), ("optional", .bool isOptional)]
  | attributeName => .object [("step", .string "attr_name")]

/-- The names of the kinds of steps. -/
def names : List String := ["static", "label_value", "attr_value", "attr_name"]

def ofJsonIn? (s : Spelling) (j : Json) : Option AddressStep := do
  let fields ← j.fields?
  let step ← fields.required? "step" (s.tag? names)
  if step = "static" then (fields.required? "value" Json.string?).map fixed
  else if step = "label_value" then (fields.required? "index" Json.word?).map label
  else if step = "attr_value" then
    let name ← fields.required? "name" Json.string?
    let isOptional ← fields.optional? "optional" false Json.bool?
    return attributeValue name isOptional
  else if step = "attr_name" then some attributeName
  else none

end AddressStep

namespace Address

def document (address : Address) : Document := .array (address.map (·.document))

def ofJsonIn? (s : Spelling) (j : Json) : Option Address :=
  Json.listOf? (AddressStep.ofJsonIn? s) j

def ofJson? : Json → Option Address := ofJsonIn? .named

end Address

namespace Unresolved

/-- The form of a reason that is written; an overflow has none. -/
def document : Unresolved → Document
  | tooFewLabels needed found =>
    .object [("reason", .string "malformed_instance"), ("required", .ofWord needed),
      ("found", .ofWord found)]
  | invalidLabel index => .object [("reason", .string "invalid_label"), ("index", .ofWord index)]
  | attributeAbsent name => .object [("reason", .string "attribute_absent"), ("name", .string name)]
  | attributeNotLiteral name =>
    .object [("reason", .string "attribute_not_literal"), ("name", .string name)]
  | noAttributeName => .object [("reason", .string "no_attribute_name")]
  | noAddress => .object [("reason", .string "no_address")]
  | overflow => .null

def ofJson? (j : Json) : Option Unresolved := do
  let fields ← j.fields?
  let reason ← fields.required? "reason" Json.string?
  if reason = "malformed_instance" then
    let needed ← fields.required? "required" Json.word?
    let found ← fields.required? "found" Json.word?
    return tooFewLabels needed found
  else if reason = "invalid_label" then (fields.required? "index" Json.word?).map invalidLabel
  else if reason = "attribute_absent" then
    (fields.required? "name" Json.string?).map attributeAbsent
  else if reason = "attribute_not_literal" then
    (fields.required? "name" Json.string?).map attributeNotLiteral
  else if reason = "no_attribute_name" then some noAttributeName
  else if reason = "no_address" then some noAddress
  else none

end Unresolved

namespace Resolution

def document : Resolution → Document
  | .ok path => .tagged "resolved" path.document
  | .error reason => .tagged "unresolved" reason.document

def ofJson? : Json → Option Resolution
  | .object (.cons outcome _ j .nil) =>
    if outcome = "resolved" then (RefPath.ofJson? j).map .ok
    else if outcome = "unresolved" then (Unresolved.ofJson? j).map .error
    else none
  | _ => none

end Resolution

end ConfigSchema
