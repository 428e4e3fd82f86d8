import ConfigSchema.Diff.Basic
import ConfigSchema.Schema.Form

/-!
Reports on the compatibility of two schemas, and their JSON form. In strict mode every change is
incompatible, otherwise only a breaking one is.
-/

namespace ConfigSchema

structure DiffReport where
  isCompatible : Bool
  changes : List SchemaChange
  summary : String
  deriving DecidableEq

namespace DiffReport

/-- The report on a list of changes. -/
def ofChanges (changes : List SchemaChange) (strict : Bool) : DiffReport :=
  let breaking := changes.countP (·.isBreaking)
  if strict && !changes.isEmpty then
    ⟨false, changes, "Strict mode: " ++ toString changes.length ++ " changes detected"⟩
  else if 0 < breaking then
    ⟨false, changes, toString breaking ++ " breaking changes detected"⟩
  else if changes.isEmpty then ⟨true, changes, "No changes detected"⟩
  else ⟨true, changes, toString changes.length ++ " compatible changes detected"⟩

def compare (old new : SchemaTree) (strict : Bool) : DiffReport :=
  ofChanges (old.changes new) strict

end DiffReport

namespace ChangeKind

def all : List ChangeKind :=
  [attributeAdded, attributeRemoved, constraintsChanged, optionalityChanged, blockAdded,
    blockRemoved, blockChanged, documentationChanged]

def name : ChangeKind → String
  | attributeAdded => "attribute_added"
  | attributeRemoved => "attribute_removed"
  | constraintsChanged => "constraints_changed"
  | optionalityChanged => "optionality_changed"
  | blockAdded => "block_added"
  | blockRemoved => "block_removed"
  | blockChanged => "block_changed"
  | documentationChanged => "documentation_changed"

def ofName? (s : String) : Option ChangeKind := all.find? fun kind => kind.name == s

def ofJson? : Json → Option ChangeKind
  | .string name => ofName? name
  | .object (.cons name _ .null .nil) => ofName? name
  | _ => none

end ChangeKind

namespace SchemaChange

def document (c : SchemaChange) : Document :=
  .object [("change_type", .string c.kind.name), ("path", .string c.path),
    ("is_breaking", .bool c.isBreaking), ("description", .string c.description)]

def ofJson? (j : Json) : Option SchemaChange := do
  let fields ← j.fields?
  let kind ← fields.required? "change_type" ChangeKind.ofJson?
  let path ← fields.required? "path" Json.string?
  let isBreaking ← fields.required? "is_breaking" Json.bool?
  let description ← fields.required? "description" Json.string?
  return ⟨kind, path, isBreaking, description⟩

end SchemaChange

namespace DiffReport

def document (r : DiffReport) : Document :=
  .object [("is_compatible", .bool r.isCompatible),
    ("changes", .array (r.changes.map (·.document))), ("summary", .string r.summary)]

def ofJson? (j : Json) : Option DiffReport := do
  let fields ← j.fields?
  let isCompatible ← fields.required? "is_compatible" Json.bool?
  let changes ← fields.required? "changes" (Json.listOf? SchemaChange.ofJson?)
  let summary ← fields.required? "summary" Json.string?
  return ⟨isCompatible, changes, summary⟩

end DiffReport

end ConfigSchema
