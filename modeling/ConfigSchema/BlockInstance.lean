import ConfigSchema.RefPath
import ConfigSchema.SortedMap.Basic
import ConfigSchema.ValueType.Form

/-!
Blocks as they are found in documents.
-/

namespace ConfigSchema

/-- The value of an attribute, as far as it is known without evaluation. -/
inductive AttributeValue
  | literal (value : Json)
  | reference (path : RefPath)
  | typeExpression (type : ValueType)
  | computed

structure BlockInstance where
  blockType : String
  labels : List String
  attributes : SortedMap String AttributeValue

namespace AttributeValue

instance : Inhabited AttributeValue := ⟨computed⟩

def document : AttributeValue → Document
  | literal j => .object [("kind", .string "literal"), ("value", j.document)]
  | reference p => .object [("kind", .string "reference"), ("value", p.document)]
  | typeExpression t => .object [("kind", .string "type_expr"), ("value", t.document)]
  | computed => .object [("kind", .string "computed")]

/-- The value beside a kind; a computed value may come with null. -/
def ofFields? (kind : String) (fields : Entries String Json none) : Option AttributeValue :=
  if kind = "literal" then fields.required? "value" fun j => some (literal j)
  else if kind = "reference" then (fields.required? "value" RefPath.ofJson?).map reference
  else if kind = "type_expr" then (fields.required? "value" ValueType.ofJson?).map typeExpression
  else if kind = "computed" then
    match fields.get? "value" with
    | none => some computed
    | some .null => some computed
    | some _ => none
  else none

def ofJson? (j : Json) : Option AttributeValue := do
  let fields ← j.fields?
  let kind ← fields.required? "kind" Spelling.named.bareName?
  ofFields? kind fields

end AttributeValue

namespace BlockInstance

instance : Inhabited BlockInstance := ⟨⟨"", [], .nil⟩⟩

/-- A block without labels and attributes. -/
def bare (blockType : String) : BlockInstance := ⟨blockType, [], .nil⟩

def withLabel (b : BlockInstance) (label : String) : BlockInstance :=
  { b with labels := b.labels ++ [label] }

def withAttribute (b : BlockInstance) (name : String) (v : AttributeValue) : BlockInstance :=
  { b with attributes := b.attributes.insert name v }

def withLiteral (b : BlockInstance) (name : String) (j : Json) : BlockInstance :=
  b.withAttribute name (.literal j)

def attribute? (b : BlockInstance) (name : String) : Option AttributeValue :=
  b.attributes.get? name

def document (b : BlockInstance) : Document :=
  .object [("block_type", .string b.blockType), ("labels", .array (b.labels.map .string)),
    ("attributes", .object (b.attributes.documentsOf AttributeValue.document))]

def ofJson? (j : Json) : Option BlockInstance := do
  let fields ← j.fields?
  let blockType ← fields.required? "block_type" Json.string?
  let labels ← fields.optional? "labels" [] (Json.listOf? Json.string?)
  let attributes ← fields.optional? "attributes" .nil (Json.mapOf? AttributeValue.ofJson?)
  return ⟨blockType, labels, attributes⟩

end BlockInstance

end ConfigSchema
