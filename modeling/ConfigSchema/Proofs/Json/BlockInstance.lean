import ConfigSchema.BlockInstance
import ConfigSchema.Proofs.Json.Constraint
import ConfigSchema.Proofs.RefPath.Reading

/-!
The JSON form of blocks found in documents: the JSON value, before it is written as a text. A path
stands in it as its dotted text, so reading a block gives it back with each path read from its text,
and everything else as it was. Main statement:
`BlockInstance.jsonForm_readsBack_iff`, exactly the blocks whose paths survive their text are read
back unchanged.
-/

namespace ConfigSchema

namespace AttributeValue

/-- The value with a path read again from its text. -/
def reread : AttributeValue → AttributeValue
  | reference p => reference (.parse p.text)
  | v => v

/-- A value is always read from its document. -/
theorem ofJson?_document (v : AttributeValue) : ofJson? v.document.value = some v.reread := by
  cases v with
  | literal j =>
      -- null is a literal like any other, and not the absence of one
      simp [document, ofJson?, ofFields?, reread, Document.value_object, Json.fields?,
        Entries.required?, Json.value_document]
  | reference p =>
      simp [document, ofJson?, ofFields?, reread, Document.value_object, Json.fields?,
        Entries.required?, RefPath.document, RefPath.ofJson?, Json.string?]
  | typeExpression t =>
      have ht : ValueType.ofJson? t.document.value = some t := t.recovers .named
      simp [document, ofJson?, ofFields?, reread, Document.value_object, Json.fields?,
        Entries.required?, ht]
  | computed =>
      simp [document, ofJson?, ofFields?, reread, Document.value_object, Json.fields?,
        Entries.required?]

theorem reread_eq_self_iff {v : AttributeValue} :
    v.reread = v ↔ ∀ p, v = reference p → p.Readable := by
  cases v with
  | reference p => simp [reread, RefPath.parse_text_eq_iff]
  | _ => simp [reread]

end AttributeValue

namespace BlockInstance

/-- The block with all paths in it read again from their texts. -/
def reread (b : BlockInstance) : BlockInstance :=
  { b with attributes := b.attributes.map AttributeValue.reread }

theorem mapOf?_documentsOf (m : SortedMap String AttributeValue) :
    Json.mapOf? AttributeValue.ofJson? (Document.object
      (m.documentsOf AttributeValue.document)).value = some (m.map AttributeValue.reread) := by
  rw [Document.value_object_documentsOf, Json.mapOf?, Json.fields?, Option.bind_some,
    Entries.mapM?_eq_some_iff]
  refine Entries.ext_get? fun name => ?_
  simp only [Entries.get?_map, Option.map_map]
  cases m.get? name with
  | none => rfl
  | some v => exact congrArg some v.ofJson?_document

/-- A block is always read from its document. -/
theorem ofJson?_document (b : BlockInstance) : ofJson? b.document.value = some b.reread := by
  have hlabels : Json.listOf? Json.string? (Document.array (b.labels.map .string)).value =
      some b.labels :=
    recovers_list fun _ _ => rfl
  have hattributes := mapOf?_documentsOf b.attributes
  rw [Document.value_object] at hattributes
  simp [document, ofJson?, reread, Document.value_object, Json.fields?, Entries.required?,
    Entries.optional?, Json.string?, hlabels, hattributes]

theorem reread_eq_self_iff {b : BlockInstance} :
    b.reread = b ↔ ∀ name v, b.attribute? name = some v → v.reread = v := by
  have hfields : b.reread = b ↔ b.attributes.map AttributeValue.reread = b.attributes := by
    obtain ⟨blockType, labels, attributes⟩ := b
    simp [reread]
  rw [hfields]
  constructor
  · intro h name v hv
    have hname := congrArg (Entries.get? name) h
    rw [Entries.get?_map, show b.attributes.get? name = some v from hv, Option.map_some] at hname
    exact Option.some.inj hname
  · intro h
    refine Entries.ext_get? fun name => ?_
    rw [Entries.get?_map]
    cases hv : b.attributes.get? name with
    | none => rfl
    | some v => exact congrArg some (h name v hv)

/-- A block is read back from the JSON value that is its form as it was exactly when no segment of a
path in it is empty or holds a point. -/
theorem jsonForm_readsBack_iff (b : BlockInstance) :
    ofJson? b.document.value = some b ↔
      ∀ name p, b.attribute? name = some (.reference p) →
        ∀ s ∈ p.segments, s ≠ "" ∧ '.' ∉ s.toList := by
  rw [ofJson?_document, Option.some.injEq, reread_eq_self_iff]
  simp only [AttributeValue.reread_eq_self_iff, RefPath.readable_iff]
  exact ⟨fun h name p hp => h name _ hp p rfl, fun h name v hv p hp => h name p (hp ▸ hv)⟩

end BlockInstance

end ConfigSchema
