import ConfigSchema.Evolution.Form
import ConfigSchema.Proofs.Json.Schema
import ConfigSchema.Proofs.Version.Canonical

/-!
Deltas survive their JSON form, as schemas do. The form is the JSON value, in which every number is
what it was; its text is another matter, since the number that is read from a text may be a neighbour
of the one that was written. What a mutation holds stands inside an object with a tag, so it is read
in the free spelling, although it is written as anywhere else.
-/

namespace ConfigSchema

open Document (fieldsOf)

theorem Version.recovers (v : Version) : Recovers ofJson? document v := by
  rw [Recovers, document, Document.value_string, ofJson?, Json.string?, Option.bind_some,
    parse_text]
  rfl

theorem Mutation.recovers (m : Mutation) : Recovers ofJson? document m := by
  cases m with
  | addAttribute name a =>
      have ha : AttributeSchema.ofJsonIn? .free a.document.value = some a := a.recovers .free
      simp [Recovers, document, ofJson?, Document.value_object, Json.fields?, Entries.required?,
        Json.string?, ha]
  | removeAttribute name =>
      simp [Recovers, document, ofJson?, Document.value_object, Json.fields?, Entries.required?,
        Json.string?]
  | replaceConstraints name set =>
      have hset : ConstraintSet.ofJsonIn? .free set.document.value = some set :=
        Constraint.recovers_set .free fun v _ => v.recovers .free
      simp [Recovers, document, ofJson?, Document.value_object, Json.fields?, Entries.required?,
        Json.string?, hset]
  | addBlock name b =>
      have hb : BlockSchema.ofJsonIn? .free b.document.value = some b := b.recovers .free
      simp [Recovers, document, ofJson?, Document.value_object, Json.fields?, Entries.required?,
        Json.string?, hb]
  | replaceBlock name b =>
      have hb : BlockSchema.ofJsonIn? .free b.document.value = some b := b.recovers .free
      simp [Recovers, document, ofJson?, Document.value_object, Json.fields?, Entries.required?,
        Json.string?, hb]

theorem Delta.recovers (d : Delta) : Recovers ofJson? document d := by
  obtain ⟨threshold, target, mutation⟩ := d
  have hthreshold : Version.ofJson? threshold.document.value = some threshold :=
    threshold.recovers
  have htarget : Json.listOf? Json.string? (Document.array (target.map .string)).value =
      some target :=
    recovers_list fun _ _ => rfl
  have hmutation : Mutation.ofJson? mutation.document.value = some mutation := mutation.recovers
  simp [Recovers, document, ofJson?, Document.value_object, Json.fields?, Entries.required?,
    hthreshold, htarget, hmutation]

/-- Every schema and every delta is read as it was from the JSON value that is its form. Nothing is
said of the text of that value. -/
theorem jsonForm_readsBack :
    (∀ t : SchemaTree, SchemaTree.ofJson? t.document.value = some t) ∧
      ∀ d : Delta, Delta.ofJson? d.document.value = some d :=
  ⟨SchemaTree.recovers, Delta.recovers⟩

end ConfigSchema
