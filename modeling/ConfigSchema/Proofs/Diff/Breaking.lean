import ConfigSchema.Diff.Report
import ConfigSchema.SortedMap.Lemmas

/-!
What it means for two schemas that none of their changes is breaking. It is a condition on the
labels, limits and attributes of each block that both have, and the same for their nested blocks.
-/

namespace ConfigSchema

/-- None of the changes is breaking. -/
def SchemaChange.Harmless (cs : List SchemaChange) : Prop := ∀ c ∈ cs, c.isBreaking = false

/-- No accepted alternative is lost, and the attribute has not become required. -/
structure AttributeSchema.KeptBy (old new : AttributeSchema) : Prop where
  alternatives : ∀ v ∈ old.constraints, v ∈ new.constraints
  required : new.isRequired = true → old.isRequired = true

/-- What a block keeps when none of its own changes is breaking. -/
structure BlockSchema.KeptBy (old new : BlockSchema) : Prop where
  labels : old.labels.map (·.name) = new.labels.map (·.name)
  limit : SchemaChange.isTighter old.maxItems new.maxItems = false
  reference : old.reference = new.reference ∨ old.reference = none
  kept : ∀ name a, old.attributes.get? name = some a →
    ∃ a', new.attributes.get? name = some a' ∧ a.KeptBy a'
  added : ∀ name a', new.attributes.get? name = some a' → old.attributes.get? name = none →
    a'.isRequired = false
  openRule : ∀ r, old.openRule = some r → ∃ r', new.openRule = some r' ∧ r.KeptBy r'

namespace SchemaChange

@[simp] theorem harmless_nil : Harmless [] := by simp [Harmless]

@[simp] theorem harmless_singleton {c : SchemaChange} :
    Harmless [c] ↔ c.isBreaking = false := by
  simp [Harmless]

@[simp] theorem harmless_append {cs ds : List SchemaChange} :
    Harmless (cs ++ ds) ↔ Harmless cs ∧ Harmless ds := by
  simp [Harmless, or_imp, forall_and]

theorem harmless_flatMap {α : Type} {f : α → List SchemaChange} {as : List α} :
    Harmless (as.flatMap f) ↔ ∀ a ∈ as, Harmless (f a) := by
  simp only [Harmless, List.mem_flatMap]
  exact ⟨fun h a ha c hc => h c ⟨a, ha, hc⟩, fun h c ⟨a, ha, hc⟩ => h a ha c hc⟩

theorem harmless_map {α : Type} {f : α → SchemaChange} {as : List α} :
    Harmless (as.map f) ↔ ∀ a ∈ as, (f a).isBreaking = false := by
  simp [Harmless]

theorem harmless_ite {p : Prop} [Decidable p] {c : SchemaChange} :
    Harmless (if p then [] else [c]) ↔ p ∨ c.isBreaking = false := by
  by_cases h : p <;> simp [h]

theorem harmless_ofConstraints {old new : ConstraintSet} {path : String} :
    Harmless (ofConstraints old new path) ↔ ∀ v ∈ old, v ∈ new := by
  rw [ofConstraints]
  split
  next e => simp [e]
  next => simp

theorem harmless_ofAttribute {old new : AttributeSchema} {path : String} :
    Harmless (ofAttribute old new path) ↔ old.KeptBy new := by
  have hrequired : (old.isRequired = new.isRequired ∨ new.isRequired = false) ↔
      (new.isRequired = true → old.isRequired = true) := by
    cases old.isRequired <;> cases new.isRequired <;> simp
  simp only [ofAttribute, harmless_append, harmless_ofConstraints, harmless_ite, hrequired,
    documentation, or_true, and_true]
  exact ⟨fun h => ⟨h.1, h.2⟩, fun h => ⟨h.alternatives, h.required⟩⟩

theorem harmless_ofAttributes {old new : SortedMap String AttributeSchema} {path : String} :
    Harmless (ofAttributes old new path) ↔
      (∀ name a, old.get? name = some a → ∃ a', new.get? name = some a' ∧ a.KeptBy a') ∧
        ∀ name a', new.get? name = some a' → old.get? name = none → a'.isRequired = false := by
  rw [ofAttributes, harmless_append, harmless_flatMap, harmless_map]
  refine and_congr ?_ ?_
  · simp only [Prod.forall, ← Entries.get?_eq_some_iff]
    refine forall_congr' fun name => forall_congr' fun a => imp_congr_right fun _ => ?_
    cases new.get? name with
    | none => simp [removedAttribute]
    | some a' => simp [harmless_ofAttribute]
  · simp only [List.mem_filter, Prod.forall, ← Entries.get?_eq_some_iff, addedAttribute,
      Entries.contains, Bool.not_eq_true', Option.isSome_eq_false_iff, Option.isNone_iff_eq_none,
      and_imp]

theorem harmless_ofOpenRule {old new : Option AttributeSchema} {path : String} :
    Harmless (ofOpenRule old new path) ↔
      ∀ r, old = some r → ∃ r', new = some r' ∧ r.KeptBy r' := by
  cases old <;> cases new <;> simp [ofOpenRule, harmless_ofAttribute]

theorem isTighter_eq_false_iff {old new : Option UInt64} :
    isTighter old new = false ↔ ∀ n, new = some n → ∃ m, old = some m ∧ m ≤ n := by
  cases old <;> cases new <;> simp [isTighter]

theorem harmless_ofBlock {old new : BlockSchema} {path : String} :
    Harmless (ofBlock old new path) ↔ old.KeptBy new := by
  have hlimit : (old.maxItems = new.maxItems ∨ isTighter old.maxItems new.maxItems = false) ↔
      isTighter old.maxItems new.maxItems = false := by
    refine or_iff_right_of_imp fun e => isTighter_eq_false_iff.2 fun n hn => ?_
    exact ⟨n, e.trans hn, UInt64.le_refl n⟩
  simp only [ofBlock, harmless_append, harmless_ite, harmless_ofAttributes, harmless_ofOpenRule,
    documentation, hlimit, or_true, and_true, Bool.true_eq_false, or_false,
    Option.isSome_eq_false_iff, Option.isNone_iff_eq_none]
  constructor
  · rintro ⟨⟨⟨⟨hlabels, hlimit⟩, hreference⟩, hkept, hadded⟩, hopen⟩
    exact ⟨hlabels, hlimit, hreference, hkept, hadded, hopen⟩
  · rintro ⟨hlabels, hlimit, hreference, hkept, hadded, hopen⟩
    exact ⟨⟨⟨⟨hlabels, hlimit⟩, hreference⟩, hkept, hadded⟩, hopen⟩

theorem harmless_addedBlocks (old new : BlockMap) (path : String) :
    Harmless (addedBlocks old new path) := by
  rw [addedBlocks, harmless_map]
  exact fun _ _ => rfl

end SchemaChange

namespace BlockSchema

open SchemaChange

theorem changes_eq (old new : BlockSchema) (path : String) :
    old.changes new path = ofBlock old new path ++ nestedChanges old.blocks new.blocks path ++
      addedBlocks old.blocks new.blocks path := by
  cases old
  rfl

theorem harmless_nestedChanges {lo : Option String} {olds : Entries String BlockSchema lo}
    {news : BlockMap} {path : String} :
    Harmless (nestedChanges olds news path) ↔ ∀ name b, olds.get? name = some b →
      ∃ b', news.get? name = some b' ∧ Harmless (b.changes b' (joinPath path name)) := by
  induction olds with
  | nil => simp [nestedChanges]
  | cons key hk b rest ih =>
      rw [nestedChanges, harmless_append, ih, Entries.forall_get?_cons]
      refine and_congr_left' ?_
      cases news.get? key with
      | none => simp [removedBlock]
      | some b' => simp

theorem harmless_changes {old new : BlockSchema} {path : String} :
    Harmless (old.changes new path) ↔ old.KeptBy new ∧ ∀ name b, old.blocks.get? name = some b →
      ∃ b', new.blocks.get? name = some b' ∧ Harmless (b.changes b' (joinPath path name)) := by
  rw [changes_eq, harmless_append, harmless_append, harmless_ofBlock, harmless_nestedChanges]
  exact and_iff_left (harmless_addedBlocks _ _ _)

end BlockSchema

namespace DiffReport

theorem isCompatible_ofChanges {cs : List SchemaChange} :
    (ofChanges cs false).isCompatible = true ↔ SchemaChange.Harmless cs := by
  have hcount : cs.countP (·.isBreaking) = 0 ↔ SchemaChange.Harmless cs := by
    simp [List.countP_eq_zero, SchemaChange.Harmless]
  rw [← hcount]
  simp only [ofChanges, Bool.false_and, Bool.false_eq_true, if_false]
  split
  next h => exact ⟨fun e => absurd e (by simp), fun e => by omega⟩
  next h =>
    have hzero : cs.countP (·.isBreaking) = 0 := by omega
    split <;> simp [hzero]

/-- Two schemas are compatible when every old block is there and none of its changes is
breaking. -/
theorem isCompatible_compare {old new : SchemaTree} :
    (compare old new false).isCompatible = true ↔ ∀ name b, old.blocks.get? name = some b →
      ∃ b', new.blocks.get? name = some b' ∧
        SchemaChange.Harmless (b.changes b' (SchemaChange.joinPath "" name)) := by
  rw [compare, isCompatible_ofChanges, SchemaTree.changes, SchemaChange.harmless_append,
    BlockSchema.harmless_nestedChanges]
  exact and_iff_left (SchemaChange.harmless_addedBlocks _ _ _)

end DiffReport

end ConfigSchema
