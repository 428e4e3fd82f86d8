import ConfigSchema.Reference.Form
import ConfigSchema.Schema.Basic

/-!
The JSON form of schemas. Lists and values that are absent are left out where the reader supplies
them again; the fields have a fixed order, so equal trees have equal texts.
-/

namespace ConfigSchema

namespace Description

def document : Description → Document
  | plainText s => .object [("kind", .string "plain_text"), ("value", .string s)]
  | markdown s => .object [("kind", .string "markdown"), ("value", .string s)]

def ofJsonIn? (s : Spelling) (j : Json) : Option Description := do
  let fields ← j.fields?
  let kind ← fields.required? "kind" s.bareName?
  if kind = "plain_text" then (fields.required? "value" Json.string?).map plainText
  else if kind = "markdown" then (fields.required? "value" Json.string?).map markdown
  else none

def ofJson? : Json → Option Description := ofJsonIn? .named

end Description

namespace LabelSchema

def document (l : LabelSchema) : Document :=
  .object [("name", .string l.name), ("description", l.description.document),
    ("is_dep_key", .bool l.isDependencyKey)]

def ofJsonIn? (s : Spelling) (j : Json) : Option LabelSchema := do
  let fields ← j.fields?
  let name ← fields.required? "name" Json.string?
  let description ← fields.required? "description" (Description.ofJsonIn? s)
  let isDependencyKey ← fields.optional? "is_dep_key" false Json.bool?
  return ⟨name, description, isDependencyKey⟩

def ofJson? : Json → Option LabelSchema := ofJsonIn? .named

end LabelSchema

namespace Presence

def document : Presence → Document
  | required => .string "required"
  | optional => .string "optional"
  | defaulted j => .tagged "defaulted" j.document

/-- The presences without a value. -/
def ofName? (name : String) : Option Presence :=
  if name = "required" then some required
  else if name = "optional" then some optional
  else none

def ofJsonIn? (s : Spelling) : Json → Option Presence
  | .string name => ofName? name
  | .object (.cons kind _ j .nil) =>
    if kind = "defaulted" then some (defaulted j)
    else if s.isNothing j then ofName? kind
    else none
  | _ => none

def ofJson? : Json → Option Presence := ofJsonIn? .named

end Presence

namespace AttributeSchema

def document (a : AttributeSchema) : Document :=
  .object ([("constraints", a.constraints.document), ("presence", a.presence.document),
    ("is_dep_key", .bool a.isDependencyKey)] ++
    Document.memberIf "reference" Reference.document a.reference ++
    Document.memberIf "description" Description.document a.description)

def ofJsonIn? (s : Spelling) (j : Json) : Option AttributeSchema := do
  let fields ← j.fields?
  let constraints ← fields.required? "constraints" (ConstraintSet.ofJsonIn? s)
  let presence ← fields.required? "presence" (Presence.ofJsonIn? s)
  let isDependencyKey ← fields.optional? "is_dep_key" false Json.bool?
  let reference ← fields.nullable? "reference" (Reference.ofJsonIn? s)
  let description ← fields.nullable? "description" (Description.ofJsonIn? s)
  return ⟨constraints, presence, isDependencyKey, reference, description⟩

def ofJson? : Json → Option AttributeSchema := ofJsonIn? .named

end AttributeSchema

namespace BlockSchema

/-- The members of a block, given those of its nested blocks. -/
def members (labels : List LabelSchema) (attributes : SortedMap String AttributeSchema)
    (openRule : Option AttributeSchema) (blocks : List (String × Document))
    (maxItems : Option UInt64) (reference : Option Reference)
    (description : Option Description) : List (String × Document) :=
  (if labels.isEmpty then [] else [("labels", .array (labels.map (·.document)))]) ++
    [("attributes", .object (attributes.documentsOf (·.document)))] ++
    Document.memberIf "any_attribute" AttributeSchema.document openRule ++
    [("blocks", .object blocks)] ++
    Document.memberIf "max_items" Document.ofWord maxItems ++
    Document.memberIf "reference" Reference.document reference ++
    Document.memberIf "description" Description.document description

mutual

def document : BlockSchema → Document
  | ⟨labels, attributes, openRule, blocks, maxItems, reference, description⟩ =>
    .object (members labels attributes openRule (blockDocuments blocks) maxItems reference
      description)

def blockDocuments {lo : Option String} :
    Entries String BlockSchema lo → List (String × Document)
  | .nil => []
  | .cons name _ b rest => (name, b.document) :: blockDocuments rest

end

/-- A block of the given fields and nested blocks. -/
def ofFieldsIn? (s : Spelling) (fields : Entries String Json none) (blocks : BlockMap) :
    Option BlockSchema := do
  let labels ← fields.optional? "labels" [] (Json.listOf? (LabelSchema.ofJsonIn? s))
  let attributes ← fields.optional? "attributes" .nil (Json.mapOf? (AttributeSchema.ofJsonIn? s))
  let openRule ← fields.nullable? "any_attribute" (AttributeSchema.ofJsonIn? s)
  let maxItems ← fields.nullable? "max_items" Json.word?
  let reference ← fields.nullable? "reference" (Reference.ofJsonIn? s)
  let description ← fields.nullable? "description" (Description.ofJsonIn? s)
  return ⟨labels, attributes, openRule, blocks, maxItems, reference, description⟩

mutual

def ofJsonIn? (s : Spelling) : Json → Option BlockSchema
  | .object fields => (blocksIn? s fields).bind (ofFieldsIn? s fields)
  | _ => none

/-- The nested blocks in the field `blocks`; there are none if it is left out. -/
def blocksIn? (s : Spelling) {lo : Option String} :
    Entries String Json lo → Option (Entries String BlockSchema none)
  | .nil => some .nil
  | .cons key _ j rest => if key = "blocks" then blockMapIn? s j else blocksIn? s rest

def blockMapIn? (s : Spelling) : Json → Option (Entries String BlockSchema none)
  | .object fields => blocksOf? s fields
  | _ => none

def blocksOf? (s : Spelling) {lo : Option String} :
    Entries String Json lo → Option (Entries String BlockSchema lo)
  | .nil => some .nil
  | .cons name above j rest =>
    match ofJsonIn? s j, blocksOf? s rest with
    | some b, some bs => some (.cons name above b bs)
    | _, _ => none

end

def ofJson? : Json → Option BlockSchema := ofJsonIn? .named

theorem blocksIn?_eq (s : Spelling) {lo : Option String} (fields : Entries String Json lo) :
    blocksIn? s fields = fields.optional? "blocks" .nil (blockMapIn? s) := by
  induction fields with
  | nil => rfl
  | cons key h j rest ih =>
    by_cases hk : key = "blocks" <;> simp_all [blocksIn?, Entries.optional?, Entries.get?_cons]

end BlockSchema

namespace SchemaTree

def document (t : SchemaTree) : Document :=
  .object [("blocks", .object (BlockSchema.blockDocuments t.blocks))]

def ofJson? (j : Json) : Option SchemaTree := do
  let fields ← j.fields?
  let blocks ← fields.required? "blocks" (BlockSchema.blockMapIn? .named)
  return ⟨blocks⟩

end SchemaTree

namespace DependencyKeys

def document (k : DependencyKeys) : Document :=
  .object [
    ("labels", .array (k.labels.map fun p =>
      .array [.ofWord (UInt64.ofNat p.1), .string p.2])),
    ("attributes", .array (k.attributes.map .string))]

end DependencyKeys

end ConfigSchema
