import ConfigSchema.Address.Form
import ConfigSchema.Constraint.Form
import ConfigSchema.Reference.Basic

/-!
The JSON forms of references and of the types inferred for them.
-/

namespace ConfigSchema

/-- A member that is left out when there is no value. -/
def Document.memberIf {α : Type} (name : String) (document : α → Document) :
    Option α → List (String × Document)
  | none => []
  | some a => [(name, document a)]

namespace TypeRule

def document : TypeRule → Document
  | explicit t => .object [("rule", .string "explicit"), ("ty", t.document)]
  | declaredBy name => .object [("rule", .string "from_constraint"), ("attribute", .string name)]
  | inferredFrom name =>
    .object (("rule", .string "inferred") :: Document.memberIf "attribute" .string name)

/-- The names of the rules. -/
def names : List String := ["explicit", "from_constraint", "inferred"]

def ofJsonIn? (s : Spelling) (j : Json) : Option TypeRule := do
  let fields ← j.fields?
  let rule ← fields.required? "rule" (s.tag? names)
  if rule = "explicit" then (fields.required? "ty" (ValueType.ofJsonIn? .free)).map explicit
  else if rule = "from_constraint" then (fields.required? "attribute" Json.string?).map declaredBy
  else if rule = "inferred" then (fields.nullable? "attribute" Json.string?).map inferredFrom
  else none

def ofJson? : Json → Option TypeRule := ofJsonIn? .named

end TypeRule

namespace Reference

/-- Without rules, the field of the rules is left out. -/
def document (r : Reference) : Document :=
  .object (("scope", r.scope.document) :: Document.memberIf "address" Address.document r.address ++
    if r.rules.isEmpty then [] else [("types", .array (r.rules.map (·.document)))])

def ofJsonIn? (s : Spelling) (j : Json) : Option Reference := do
  let fields ← j.fields?
  let scope ← fields.required? "scope" Scope.ofJson?
  let address ← fields.nullable? "address" (Address.ofJsonIn? s)
  let rules ← fields.optional? "types" [] (Json.listOf? (TypeRule.ofJsonIn? s))
  return ⟨scope, address, rules⟩

def ofJson? : Json → Option Reference := ofJsonIn? .named

end Reference

namespace TypeInference

def document : TypeInference → Document
  | inferred t => .tagged "inferred" t.document
  | mismatched declared actual =>
    .tagged "mismatched" (.object [("declared", declared.document), ("actual", actual.document)])
  | unresolved => .string "unresolved"

def ofJson? : Json → Option TypeInference
  | .string name => if name = "unresolved" then some unresolved else none
  | .object (.cons outcome _ j .nil) =>
    if outcome = "inferred" then (ValueType.ofJson? j).map inferred
    else if outcome = "mismatched" then do
      let fields ← j.fields?
      let declared ← fields.required? "declared" ValueType.ofJson?
      let actual ← fields.required? "actual" ValueType.ofJson?
      return mismatched declared actual
    else
      match j with
      | .null => if outcome = "unresolved" then some unresolved else none
      | _ => none
  | _ => none

end TypeInference

end ConfigSchema
