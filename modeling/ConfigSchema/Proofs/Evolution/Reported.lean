import ConfigSchema.Proofs.Diff.Locality

/-!
Reports on single deltas. Main statement: the changes between a schema and what a delta makes of it
are those that the delta names, reported under its own path, whatever else the schema holds.
-/

namespace ConfigSchema

namespace Delta

/-- The changes tell what the delta has done to the tree, and nothing else. -/
def ReportedBy (d : Delta) (t : SchemaTree) (cs : List SchemaChange) : Prop :=
  match d.mutation with
  | .addAttribute _ a => ∃ text, cs = [⟨.attributeAdded, d.elementPath, a.isRequired, text⟩]
  | .removeAttribute _ => ∃ text, cs = [⟨.attributeRemoved, d.elementPath, true, text⟩]
  | .replaceConstraints name set => ∃ b a, t.blockAt? d.target = some b ∧
    b.attributes.get? name = some a ∧
      if a.constraints = set then cs = []
      else ∃ text, cs = [⟨.constraintsChanged, d.elementPath,
        a.constraints.any fun v => !set.contains v, text⟩]
  | .addBlock _ _ => ∃ text, cs = [⟨.blockAdded, d.elementPath, false, text⟩]
  | .replaceBlock name new => ∃ old, t.blockAt? (d.target ++ [name]) = some old ∧
    cs = old.changes new d.elementPath ∧ ∀ c ∈ cs, c.IsAtOrBelow d.elementPath

open SchemaChange (joinPath)

variable {d : Delta}

/-- The path of the element is the one under which a report has it. -/
theorem elementPath_eq (h : (d.target ++ [d.mutation.name]).head? ≠ some "") :
    d.elementPath = joinPath (d.target.foldl joinPath "") d.mutation.name := by
  rw [elementPath, dotted, ← SchemaChange.foldl_joinPath h, List.foldl_append, List.foldl_cons,
    List.foldl_nil]

theorem elementPath_ne (h : (d.target ++ [d.mutation.name]).head? ≠ some "") :
    d.elementPath ≠ "" := by
  rw [elementPath, dotted, ← SchemaChange.foldl_joinPath h]
  exact SchemaChange.foldl_joinPath_ne (by simp) h

/-- The changes that one delta makes are reported as what it is. -/
theorem reportedBy_changes {t u : SchemaTree} (h : d.apply t = .ok u)
    (hname : (d.target ++ [d.mutation.name]).head? ≠ some "") : d.ReportedBy t (t.changes u) := by
  have hpath := elementPath_eq hname
  have hnonempty := elementPath_ne hname
  obtain ⟨threshold, target, mutation⟩ := d
  have hchanges : t.changes u = BlockMap.changes t.blocks u.blocks "" := rfl
  cases apply_eq_ok_iff.1 h with
  | @addAttribute name a b hnew hat =>
      rw [hchanges, hat.changes_eq, SchemaChange.ofAttributes_insert_new hnew]
      exact ⟨_, by rw [hpath]; rfl⟩
  | @removeAttribute name a b ha hat =>
      rw [hchanges, hat.changes_eq, SchemaChange.ofAttributes_erase ha]
      exact ⟨_, by rw [hpath]; rfl⟩
  | @replaceConstraints name set a b ha hat =>
      refine ⟨b, a, hat.at?, ha, ?_⟩
      rw [hchanges, hat.changes_eq, SchemaChange.ofAttributes_insert ha,
        SchemaChange.ofAttribute_constraints, SchemaChange.ofConstraints]
      split
      next => rfl
      next => exact ⟨_, by rw [hpath]; rfl⟩
  | @addBlock name new inner hnew hat =>
      rw [hchanges, hat.changes_eq, BlockMap.changes_insert_new hnew]
      exact ⟨_, by rw [hpath]; rfl⟩
  | @replaceBlock name new old inner hold hat =>
      have hreport : t.changes u =
          old.changes new (elementPath ⟨threshold, target, .replaceBlock name new⟩) := by
        rw [hchanges, hat.changes_eq, BlockMap.changes_insert hold, hpath]
        rfl
      rw [hreport]
      exact ⟨old, hat.at?_concat hold, rfl,
        fun c => BlockSchema.isAtOrBelow_of_mem_changes hnonempty⟩

/-- A block `terraform` with an attribute, and with a nested block `backend`. -/
def withBackend (backend : BlockSchema) : SchemaTree :=
  (SchemaTree.empty.withBlock "locals" .bare).withBlock "terraform"
    ((BlockSchema.bare.withAttribute "required_version" (.optional [.literal .string])).withBlock
      "backend" backend)

/-- A required attribute of the nested block. -/
def lockAdded : Delta :=
  ⟨.release 1 1 0, ["terraform", "backend"], .addAttribute "lock" (.required [.literal .bool])⟩

theorem reportedBy_lockAdded :
    lockAdded.apply (withBackend .bare) =
        .ok (withBackend (BlockSchema.bare.withAttribute "lock" (.required [.literal .bool]))) ∧
      ∃ text, (withBackend .bare).changes
          (withBackend (BlockSchema.bare.withAttribute "lock" (.required [.literal .bool]))) =
        [⟨.attributeAdded, "terraform.backend.lock", true, text⟩] := by
  have happly : lockAdded.apply (withBackend .bare) =
      .ok (withBackend (BlockSchema.bare.withAttribute "lock" (.required [.literal .bool]))) := rfl
  have hpath : lockAdded.elementPath = "terraform.backend.lock" := by decide
  refine ⟨happly, ?_⟩
  rw [← hpath]
  exact reportedBy_changes happly (by decide)

end Delta

end ConfigSchema
