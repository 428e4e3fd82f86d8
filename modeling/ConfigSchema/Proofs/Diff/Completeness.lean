import ConfigSchema.Proofs.Diff.Breaking

/-!
Which differences between two schemas are reported. Of a label only the name is compared, and of an
attribute the constraints, the description and whether it is required. Main statement: there is no
change exactly when the two schemas have the same outline, in which everything else is left out.
-/

namespace ConfigSchema

/-- The label without its description and without regard to dependency keys. -/
def LabelSchema.outline (l : LabelSchema) : LabelSchema := .plain l.name (.plainText "")

theorem LabelSchema.map_outline_eq_iff {old new : List LabelSchema} :
    old.map (·.outline) = new.map (·.outline) ↔ old.map (·.name) = new.map (·.name) := by
  have hname : Function.Injective fun name => plain name (.plainText "") :=
    fun _ _ h => congrArg LabelSchema.name h
  have hlabels : ∀ ls : List LabelSchema, ls.map (·.outline) =
      (ls.map (·.name)).map fun name => plain name (.plainText "") := fun ls => by
    rw [List.map_map]
    rfl
  rw [hlabels, hlabels, List.map_inj_right hname]

/-- The attribute without its default value and its reference and without regard to dependency
keys. -/
def AttributeSchema.outline (a : AttributeSchema) : AttributeSchema :=
  ⟨a.constraints, if a.isRequired then .required else .optional, false, none, a.description⟩

theorem AttributeSchema.outline_eq_iff {a b : AttributeSchema} :
    a.outline = b.outline ↔ a.constraints = b.constraints ∧ a.isRequired = b.isRequired ∧
      a.description = b.description := by
  simp only [outline, mk.injEq, true_and]
  cases a.isRequired <;> cases b.isRequired <;> simp

namespace BlockSchema

mutual

/-- The block with the outlines of its labels, attributes and nested blocks. -/
def outline : BlockSchema → BlockSchema
  | ⟨labels, attributes, openRule, blocks, maxItems, reference, description⟩ =>
    ⟨labels.map (·.outline), attributes.map (·.outline), openRule.map (·.outline),
      outlines blocks, maxItems, reference, description⟩

def outlines {lo : Option String} : Entries String BlockSchema lo → Entries String BlockSchema lo
  | .nil => .nil
  | .cons name above b rest => .cons name above b.outline (outlines rest)

end

theorem outlines_eq_map {lo : Option String} (bs : Entries String BlockSchema lo) :
    outlines bs = bs.map outline := by
  induction bs with
  | nil => rfl
  | cons name h b rest ih => rw [outlines, ih, Entries.map]

theorem outline_eq (b : BlockSchema) :
    b.outline = ⟨b.labels.map (·.outline), b.attributes.map (·.outline),
      b.openRule.map (·.outline), b.blocks.map outline, b.maxItems, b.reference,
      b.description⟩ := by
  cases b
  rw [outline, outlines_eq_map]

end BlockSchema

def SchemaTree.outline (t : SchemaTree) : SchemaTree := ⟨BlockSchema.outlines t.blocks⟩

namespace SchemaChange

theorem ite_nil_eq_nil_iff {p : Prop} [Decidable p] {c : SchemaChange} :
    (if p then [] else [c]) = [] ↔ p := by
  by_cases h : p <;> simp [h]

theorem ofConstraints_eq_nil_iff {old new : ConstraintSet} {path : String} :
    ofConstraints old new path = [] ↔ old = new := ite_nil_eq_nil_iff

theorem ofAttribute_eq_nil_iff {old new : AttributeSchema} {path : String} :
    ofAttribute old new path = [] ↔ old.outline = new.outline := by
  simp only [ofAttribute, List.append_eq_nil_iff, ofConstraints_eq_nil_iff, ite_nil_eq_nil_iff,
    AttributeSchema.outline_eq_iff, and_assoc]

theorem ofAttributes_eq_nil_iff {old new : SortedMap String AttributeSchema} {path : String} :
    ofAttributes old new path = [] ↔ old.map (·.outline) = new.map (·.outline) := by
  rw [ofAttributes, List.append_eq_nil_iff, List.flatMap_eq_nil_iff, List.map_eq_nil_iff,
    List.filter_eq_nil_iff, Entries.map_eq_map_iff]
  simp only [Prod.forall, ← Entries.get?_eq_some_iff]
  refine and_congr ?_ (by simp)
  refine forall_congr' fun name => forall_congr' fun a => imp_congr_right fun _ => ?_
  cases new.get? name with
  | none => simp
  | some a' => simp [ofAttribute_eq_nil_iff]

theorem ofOpenRule_eq_nil_iff {old new : Option AttributeSchema} {path : String} :
    ofOpenRule old new path = [] ↔ old.map (·.outline) = new.map (·.outline) := by
  cases old <;> cases new <;> simp [ofOpenRule, ofAttribute_eq_nil_iff]

theorem addedBlocks_eq_nil_iff {old new : BlockMap} {path : String} :
    addedBlocks old new path = [] ↔
      ∀ name b, new.get? name = some b → old.contains name = true := by
  simp [addedBlocks, Entries.mem_keys_iff]

end SchemaChange

namespace BlockSchema

open SchemaChange

theorem nestedChanges_eq_nil_iff {lo : Option String} {olds : Entries String BlockSchema lo}
    {news : BlockMap} {path : String} :
    nestedChanges olds news path = [] ↔ ∀ name b, olds.get? name = some b →
      ∃ b', news.get? name = some b' ∧ b.changes b' (joinPath path name) = [] := by
  induction olds with
  | nil => simp [nestedChanges]
  | cons key hk b rest ih =>
      rw [nestedChanges, List.append_eq_nil_iff, ih, Entries.forall_get?_cons]
      refine and_congr_left' ?_
      cases news.get? key with
      | none => simp
      | some b' => simp

/-- Maps of blocks have no changes when their outlines agree, as soon as this holds of the blocks of
the old map. -/
theorem mapChanges_eq_nil_iff {olds news : BlockMap} {path : String}
    (h : ∀ name b, olds.get? name = some b →
      ∀ b' p, b.changes b' p = [] ↔ b.outline = b'.outline) :
    nestedChanges olds news path = [] ∧ addedBlocks olds news path = [] ↔
      olds.map outline = news.map outline := by
  rw [nestedChanges_eq_nil_iff, addedBlocks_eq_nil_iff, Entries.map_eq_map_iff]
  refine and_congr_left' ?_
  refine forall_congr' fun name => forall_congr' fun b => forall_congr' fun hb => ?_
  exact exists_congr fun b' => and_congr_right fun _ => h name b hb b' _

theorem changes_eq_nil_iff (old new : BlockSchema) (path : String) :
    old.changes new path = [] ↔ old.outline = new.outline := by
  induction old using induct generalizing new path with
  | block old ih =>
      have hblocks : nestedChanges old.blocks new.blocks path = [] ∧
          addedBlocks old.blocks new.blocks path = [] ↔
            old.blocks.map outline = new.blocks.map outline := mapChanges_eq_nil_iff ih
      rw [changes_eq, List.append_eq_nil_iff, List.append_eq_nil_iff, and_assoc, hblocks, ofBlock,
        outline_eq, outline_eq new]
      simp only [List.append_eq_nil_iff, ite_nil_eq_nil_iff, ofAttributes_eq_nil_iff,
        ofOpenRule_eq_nil_iff, mk.injEq, LabelSchema.map_outline_eq_iff]
      -- the conditions are the same on both sides, in the order of the report and of the fields
      constructor
      · rintro ⟨⟨⟨⟨⟨⟨hlabels, hlimit⟩, href⟩, hdoc⟩, hattributes⟩, hopen⟩, hnested⟩
        exact ⟨hlabels, hattributes, hopen, hnested, hlimit, href, hdoc⟩
      · rintro ⟨hlabels, hattributes, hopen, hnested, hlimit, href, hdoc⟩
        exact ⟨⟨⟨⟨⟨⟨hlabels, hlimit⟩, href⟩, hdoc⟩, hattributes⟩, hopen⟩, hnested⟩

end BlockSchema

namespace SchemaTree

theorem changes_eq_nil_iff {old new : SchemaTree} :
    old.changes new = [] ↔ old.outline = new.outline := by
  rw [changes, List.append_eq_nil_iff, outline, outline, mk.injEq, BlockSchema.outlines_eq_map,
    BlockSchema.outlines_eq_map]
  exact BlockSchema.mapChanges_eq_nil_iff fun _ b _ => b.changes_eq_nil_iff

/-- Blocks `locals` whose attributes publish something, or nothing. -/
def publishing (r : Option Reference) : SchemaTree :=
  empty.withBlock "locals" (BlockSchema.bare.withOpenRule { AttributeSchema.optional [.any] with
    reference := r })

end SchemaTree

namespace DiffReport

theorem isCompatible_strict {cs : List SchemaChange} :
    (ofChanges cs true).isCompatible = true ↔ cs = [] := by
  cases cs <;> simp [ofChanges]

/-- A strict comparison accepts no schema but one with the same outline. So it finds every difference
between two schemas exactly when they are equal or their outlines differ. -/
theorem strict_compatible_iff (old new : SchemaTree) :
    ((compare old new true).isCompatible = true ↔ old.changes new = []) ∧
      (old.changes new = [] ↔ old.outline = new.outline) ∧
      ((old.changes new = [] ↔ old = new) ↔ (old.outline = new.outline → old = new)) := by
  refine ⟨isCompatible_strict, SchemaTree.changes_eq_nil_iff, ?_⟩
  rw [SchemaTree.changes_eq_nil_iff]
  exact ⟨Iff.mp, fun h => ⟨h, fun e => e ▸ rfl⟩⟩

/-- Local values are no longer published, and a strict comparison accepts this. -/
theorem strict_compatible_unpublished :
    (compare (SchemaTree.publishing (some (.addressed .localValue
        [.fixed "local", .attributeName]))) (SchemaTree.publishing none) true).isCompatible = true ∧
      SchemaTree.publishing (some (.addressed .localValue [.fixed "local", .attributeName])) ≠
        SchemaTree.publishing none := by
  refine ⟨by decide, fun h => ?_⟩
  have hrule := congrArg (fun t => (t.block? "locals").bind fun b =>
    b.openRule.bind (·.reference)) h
  revert hrule
  decide

end DiffReport

end ConfigSchema
