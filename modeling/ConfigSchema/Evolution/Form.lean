import ConfigSchema.Evolution.Basic
import ConfigSchema.Schema.Form

/-!
The JSON forms of versions and deltas. A version is read from its canonical text only.
-/

namespace ConfigSchema

namespace Version

def document (v : Version) : Document := .string v.text

def ofJson? (j : Json) : Option Version := j.string?.bind fun s => (parse s).toOption

/-- A version of the language. -/
def languageDocument (v : Version) : Document := .object [("version", v.document)]

def ofLanguageJson? (j : Json) : Option Version :=
  j.fields?.bind fun fields => fields.required? "version" ofJson?

end Version

namespace Mutation

def document : Mutation → Document
  | addAttribute name a =>
    .object [("op", .string "add_attribute"), ("name", .string name), ("attribute", a.document)]
  | removeAttribute name => .object [("op", .string "remove_attribute"), ("name", .string name)]
  | replaceConstraints name set =>
    .object [("op", .string "replace_constraints"), ("name", .string name),
      ("constraints", set.document)]
  | addBlock name b =>
    .object [("op", .string "add_block"), ("name", .string name), ("block", b.document)]
  | replaceBlock name b =>
    .object [("op", .string "replace_block"), ("name", .string name), ("block", b.document)]

def ofJson? (j : Json) : Option Mutation := do
  let fields ← j.fields?
  let op ← fields.required? "op" Json.string?
  let name ← fields.required? "name" Json.string?
  if op = "add_attribute" then
    (fields.required? "attribute" (AttributeSchema.ofJsonIn? .free)).map (addAttribute name)
  else if op = "remove_attribute" then some (removeAttribute name)
  else if op = "replace_constraints" then
    (fields.required? "constraints" (ConstraintSet.ofJsonIn? .free)).map (replaceConstraints name)
  else if op = "add_block" then
    (fields.required? "block" (BlockSchema.ofJsonIn? .free)).map (addBlock name)
  else if op = "replace_block" then
    (fields.required? "block" (BlockSchema.ofJsonIn? .free)).map (replaceBlock name)
  else none

end Mutation

namespace Delta

def document (d : Delta) : Document :=
  .object [("threshold", d.threshold.document), ("target", .array (d.target.map .string)),
    ("mutation", d.mutation.document)]

def ofJson? (j : Json) : Option Delta := do
  let fields ← j.fields?
  let threshold ← fields.required? "threshold" Version.ofJson?
  let target ← fields.required? "target" (Json.listOf? Json.string?)
  let mutation ← fields.required? "mutation" Mutation.ofJson?
  return ⟨threshold, target, mutation⟩

end Delta

end ConfigSchema
