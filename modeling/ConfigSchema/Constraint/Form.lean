import ConfigSchema.Constraint.Basic
import ConfigSchema.ValueType.Form

/-!
The JSON form of constraints: objects whose field `kind` names the kind of the constraint. Readers
look up the fields that they need and pass over all others.
-/

namespace ConfigSchema

namespace Scope

def document (s : Scope) : Document := .string s.name

def ofJson? (j : Json) : Option Scope := j.string?.bind ofName?

end Scope

namespace Constraint

/-- A document with its kind in front. -/
def ofKind (kind : String) (members : List (String × Document)) : Document :=
  .object (("kind", .string kind) :: members)

mutual

def document : Constraint → Document
  | literal t => ofKind "literal" [("ty", t.document)]
  | traversal scope ofType =>
    ofKind "scope_traversal" (("scope", scope.document) ::
      match ofType with
      | none => []
      | some t => [("of_type", t.document)])
  | uniform vs => ofKind "tuple" [("elements", .tagged "uniform" (.array (documents vs)))]
  | positional vss =>
    ofKind "tuple" [("elements", .tagged "positional" (.array (positionDocuments vss)))]
  | map ks vs => ofKind "map" [("key", .array (documents ks)), ("value", .array (documents vs))]
  | object fs isOpen =>
    ofKind "object" [("attributes", .object (attributeDocuments fs)), ("open", .bool isOpen)]
  | typeExpression => ofKind "type_declaration" []
  | any => ofKind "any" []

def documents : List Constraint → List Document
  | [] => []
  | v :: vs => v.document :: documents vs

def positionDocuments : List (List Constraint) → List Document
  | [] => []
  | vs :: vss => .array (documents vs) :: positionDocuments vss

def attributeDocuments {lo : Option String} :
    Entries String (ObjectAttribute (List Constraint)) lo → List (String × Document)
  | .nil => []
  | .cons name _ ⟨vs, isOptional⟩ rest =>
    (name, .object [("constraints", .array (documents vs)), ("optional", .bool isOptional)]) ::
      attributeDocuments rest

end

/-- The names of the kinds. -/
def kinds : List String :=
  ["literal", "scope_traversal", "tuple", "map", "object", "type_declaration", "any"]

/-- The kinds of constraints without nested sets. -/
def flatOfFields? (kind : String) (fields : Entries String Json none) : Option Constraint :=
  if kind = "literal" then (fields.required? "ty" (ValueType.ofJsonIn? .free)).map literal
  else if kind = "scope_traversal" then do
    let scope ← fields.required? "scope" Scope.ofJson?
    let ofType ← fields.nullable? "of_type" (ValueType.ofJsonIn? .free)
    return traversal scope ofType
  else if kind = "type_declaration" then some typeExpression
  else if kind = "any" then some any
  else none

mutual

/-- The constraint that a JSON value stands for. Only its own kind depends on the spelling, since
all else stands inside an object with a tag. -/
def ofJsonIn? (s : Spelling) : Json → Option Constraint
  | .object fields =>
    match (fields.get? "kind").bind (s.tag? kinds) with
    | some kind =>
      if kind = "tuple" then tupleIn? fields
      else if kind = "map" then
        match setIn? "key" fields, setIn? "value" fields with
        | some ks, some vs => some (map ks vs)
        | _, _ => none
      else if kind = "object" then
        match attributesIn? fields, fields.optional? "open" false Json.bool? with
        | some fs, some isOpen => some (object fs isOpen)
        | _, _ => none
      else flatOfFields? kind fields
    | none => none
  | _ => none

/-- A constraint set: an array of constraints. -/
def setOfJsonIn? (s : Spelling) : Json → Option (List Constraint)
  | .array items => ofItems? s items
  | _ => none

def ofItems? (s : Spelling) : List Json → Option (List Constraint)
  | [] => some []
  | j :: js =>
    match ofJsonIn? s j, ofItems? s js with
    | some v, some vs => some (v :: vs)
    | _, _ => none

def sets? : Json → Option (List (List Constraint))
  | .array items => setsOfItems? items
  | _ => none

def setsOfItems? : List Json → Option (List (List Constraint))
  | [] => some []
  | j :: js =>
    match setOfJsonIn? .free j, setsOfItems? js with
    | some vs, some vss => some (vs :: vss)
    | _, _ => none

/-- The constraint set in a field. -/
def setIn? (name : String) {lo : Option String} :
    Entries String Json lo → Option (List Constraint)
  | .nil => none
  | .cons key _ j rest => if key = name then setOfJsonIn? .free j else setIn? name rest

/-- The elements of a tuple constraint, in the field `elements`. -/
def tupleIn? {lo : Option String} : Entries String Json lo → Option Constraint
  | .nil => none
  | .cons key _ j rest => if key = "elements" then elements? j else tupleIn? rest

def elements? : Json → Option Constraint
  | .object (.cons shape _ j .nil) =>
    if shape = "uniform" then (setOfJsonIn? .free j).map uniform
    else if shape = "positional" then (sets? j).map positional
    else none
  | _ => none

/-- The attributes of an object constraint, in the field `attributes`. -/
def attributesIn? {lo : Option String} : Entries String Json lo →
    Option (Entries String (ObjectAttribute (List Constraint)) none)
  | .nil => none
  | .cons key _ j rest => if key = "attributes" then attributes? j else attributesIn? rest

def attributes? : Json → Option (Entries String (ObjectAttribute (List Constraint)) none)
  | .object fields => attributesOf? fields
  | _ => none

def attributesOf? {lo : Option String} : Entries String Json lo →
    Option (Entries String (ObjectAttribute (List Constraint)) lo)
  | .nil => some .nil
  | .cons name above j rest =>
    match attribute? j, attributesOf? rest with
    | some a, some as => some (.cons name above a as)
    | _, _ => none

def attribute? : Json → Option (ObjectAttribute (List Constraint))
  | .object fields =>
    match setIn? "constraints" fields, fields.optional? "optional" false Json.bool? with
    | some vs, some isOptional => some ⟨vs, isOptional⟩
    | _, _ => none
  | _ => none

end

def ofJson? : Json → Option Constraint := ofJsonIn? .named

theorem setIn?_eq (name : String) {lo : Option String} (fields : Entries String Json lo) :
    setIn? name fields = fields.required? name (setOfJsonIn? .free) := by
  induction fields with
  | nil => rfl
  | cons key h j rest ih =>
    by_cases hk : key = name <;> simp_all [setIn?, Entries.required?, Entries.get?_cons]

theorem tupleIn?_eq {lo : Option String} (fields : Entries String Json lo) :
    tupleIn? fields = fields.required? "elements" elements? := by
  induction fields with
  | nil => rfl
  | cons key h j rest ih =>
    by_cases hk : key = "elements" <;> simp_all [tupleIn?, Entries.required?, Entries.get?_cons]

theorem attributesIn?_eq {lo : Option String} (fields : Entries String Json lo) :
    attributesIn? fields = fields.required? "attributes" attributes? := by
  induction fields with
  | nil => rfl
  | cons key h j rest ih =>
    by_cases hk : key = "attributes" <;>
      simp_all [attributesIn?, Entries.required?, Entries.get?_cons]

end Constraint

namespace ConstraintSet

def document (set : ConstraintSet) : Document := .array (Constraint.documents set)

def ofJsonIn? (s : Spelling) (j : Json) : Option ConstraintSet := Constraint.setOfJsonIn? s j

def ofJson? : Json → Option ConstraintSet := ofJsonIn? .named

/-- The outcome of a match: the position of the alternative that accepts, if there is one. -/
def outcomeDocument : Option UInt64 → Document
  | some index => .tagged "matched" (.object [("index", .ofWord index)])
  | none => .string "no_match"

def outcomeOfJson? : Json → Option (Option UInt64)
  | .string name => if name = "no_match" then some none else none
  | .object (.cons "matched" _ j .nil) =>
    j.fields?.bind fun fields => (fields.required? "index" Json.word?).map some
  | .object (.cons "no_match" _ .null .nil) => some none
  | _ => none

end ConstraintSet

end ConfigSchema
