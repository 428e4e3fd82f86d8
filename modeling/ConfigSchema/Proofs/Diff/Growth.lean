import ConfigSchema.Proofs.Diff.Locality

/-!
Schemas that grow. A block grows when it keeps everything but the constraints of its attributes, and
may have more attributes; a schema grows when all its blocks are still there and have grown.
Main statement: the comparison with a schema that has grown reports additions and changed
constraints only.
-/

namespace ConfigSchema

/-- Something is added, or other expressions are accepted. -/
def SchemaChange.IsGrowth (c : SchemaChange) : Prop :=
  c.kind = .attributeAdded ∨ c.kind = .blockAdded ∨ c.kind = .constraintsChanged

/-- The block itself is the same, apart from new attributes and other constraints of old ones. -/
structure BlockSchema.GrownTo (old new : BlockSchema) : Prop where
  labels : new.labels = old.labels
  openRule : new.openRule = old.openRule
  maxItems : new.maxItems = old.maxItems
  reference : new.reference = old.reference
  description : new.description = old.description
  kept : ∀ name a, old.attributes.get? name = some a →
    ∃ set, new.attributes.get? name = some { a with constraints := set }

/-- Every block of the first tree is in the second one under the same path, grown. -/
def SchemaTree.GrownTo (old new : SchemaTree) : Prop :=
  ∀ path b, old.blockAt? path = some b → ∃ b', new.blockAt? path = some b' ∧ b.GrownTo b'

namespace BlockSchema.GrownTo

variable {a b c : BlockSchema}

/-- Blocks that differ in their attributes and their nested blocks only. -/
theorem of_kept {b : BlockSchema} {as : SortedMap String AttributeSchema} (blocks : BlockMap)
    (h : ∀ name a, b.attributes.get? name = some a →
      ∃ set, as.get? name = some { a with constraints := set }) :
    b.GrownTo { b with attributes := as, blocks := blocks } :=
  ⟨rfl, rfl, rfl, rfl, rfl, h⟩

theorem blocks (b : BlockSchema) (blocks : BlockMap) : b.GrownTo { b with blocks := blocks } :=
  of_kept blocks fun _ a ha => ⟨a.constraints, ha⟩

theorem trans (h : a.GrownTo b) (h' : b.GrownTo c) : a.GrownTo c where
  labels := h'.labels.trans h.labels
  openRule := h'.openRule.trans h.openRule
  maxItems := h'.maxItems.trans h.maxItems
  reference := h'.reference.trans h.reference
  description := h'.description.trans h.description
  kept name x hx := by
    obtain ⟨set, hset⟩ := h.kept name x hx
    exact h'.kept name { x with constraints := set } hset

end BlockSchema.GrownTo

theorem SchemaTree.GrownTo.refl (t : SchemaTree) : t.GrownTo t :=
  BlockMap.EachIn.refl (BlockMap.rel_self .blocks) t.blocks

theorem SchemaTree.GrownTo.trans {t u w : SchemaTree} (h : t.GrownTo u) (h' : u.GrownTo w) :
    t.GrownTo w :=
  BlockMap.EachIn.trans (fun _ _ _ => .trans) h h'

namespace SchemaChange

theorem isGrowth_of_mem_ofAttributes {old new : SortedMap String AttributeSchema}
    (h : ∀ name a, old.get? name = some a →
      ∃ set, new.get? name = some { a with constraints := set })
    {path : String} {c : SchemaChange} (hc : c ∈ ofAttributes old new path) : c.IsGrowth := by
  rw [ofAttributes_eq_differences, Entries.mem_differences] at hc
  rcases hc with ⟨name, a, b, ha, hb, hc⟩ | ⟨name, a, ha, hnone, -⟩ | ⟨name, a, -, -, rfl⟩
  · obtain ⟨set, hset⟩ := h name a ha
    cases hb.symm.trans hset
    rw [ofAttribute_constraints, ofConstraints, List.mem_ite_nil_left, List.mem_singleton] at hc
    exact .inr (.inr (congrArg kind hc.2))
  · obtain ⟨set, hset⟩ := h name a ha
    cases hnone.symm.trans hset
  · exact .inl rfl

theorem ofBlock_of_grownTo {old new : BlockSchema} (h : old.GrownTo new) (path : String) :
    ofBlock old new path = ofAttributes old.attributes new.attributes path := by
  simp [ofBlock, h.labels, h.maxItems, h.reference, h.description, h.openRule, ofOpenRule_self]

end SchemaChange

/-- Where all blocks are kept, what is reported is what their reports hold, or an added block. -/
theorem BlockMap.isGrowth_of_mem_changes {m m' : BlockMap} {path : String} {c : SchemaChange}
    (h : ∀ name b, m.get? name = some b → ∃ b', m'.get? name = some b' ∧
      ∀ path, c ∈ b.changes b' path → c.IsGrowth) (hc : c ∈ m.changes m' path) : c.IsGrowth := by
  rw [changes_eq_differences, Entries.mem_differences] at hc
  rcases hc with ⟨name, b, b', hb, hb', hc⟩ | ⟨name, b, hb, hnone, -⟩ | ⟨name, b, -, -, rfl⟩
  · obtain ⟨b'', hb'', hchanges⟩ := h name b hb
    cases hb'.symm.trans hb''
    exact hchanges _ hc
  · obtain ⟨b', hb', -⟩ := h name b hb
    cases hnone.symm.trans hb'
  · exact .inr (.inl rfl)

theorem BlockSchema.isGrowth_of_mem_changes {old new : BlockSchema} (h : old.GrownTo new)
    (hblocks : BlockMap.EachIn GrownTo old.blocks new.blocks) {path : String} {c : SchemaChange}
    (hc : c ∈ old.changes new path) : c.IsGrowth := by
  induction old using induct generalizing new path with
  | block old ih =>
      rw [changes_eq_append, List.mem_append, SchemaChange.ofBlock_of_grownTo h] at hc
      rcases hc with hc | hc
      · exact SchemaChange.isGrowth_of_mem_ofAttributes h.kept hc
      · refine BlockMap.isGrowth_of_mem_changes (fun name b hb => ?_) hc
        obtain ⟨b', hb', hbb', hnested⟩ := BlockMap.eachIn_iff_get?.1 hblocks name b hb
        exact ⟨b', hb', fun path hc => ih name b hb hbb' hnested hc⟩

/-- Nothing is reported as removed, and no block as changed. -/
theorem SchemaTree.GrownTo.isGrowth_of_mem_changes {t u : SchemaTree} (h : t.GrownTo u)
    {c : SchemaChange} (hc : c ∈ t.changes u) : c.IsGrowth := by
  refine BlockMap.isGrowth_of_mem_changes (m := t.blocks) (fun name b hb => ?_) hc
  obtain ⟨b', hb', hbb', hnested⟩ := BlockMap.eachIn_iff_get?.1 h name b hb
  exact ⟨b', hb', fun path hc => BlockSchema.isGrowth_of_mem_changes hbb' hnested hc⟩

end ConfigSchema
