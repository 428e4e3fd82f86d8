import ConfigSchema.Proofs.Diff.Exactness

/-!
Comparisons in the other direction. The places at which two schemas differ are the same from either
side; what one side adds, the other one removes. Main statement: the report of the reverse comparison
is, up to the order, the report with additions and removals exchanged.
-/

namespace ConfigSchema

/-- The change from the other side: additions and removals are exchanged. -/
def ChangeKind.reversed : ChangeKind → ChangeKind
  | attributeAdded => attributeRemoved
  | attributeRemoved => attributeAdded
  | constraintsChanged => constraintsChanged
  | optionalityChanged => optionalityChanged
  | blockAdded => blockRemoved
  | blockRemoved => blockAdded
  | blockChanged => blockChanged
  | documentationChanged => documentationChanged

@[simp] theorem ChangeKind.reversed_reversed (kind : ChangeKind) :
    kind.reversed.reversed = kind := by
  cases kind <;> rfl

theorem AttributeSchema.RuleDiffers.reversed {rule rule' : Option AttributeSchema}
    {kind : ChangeKind} (h : RuleDiffers rule rule' kind) :
    RuleDiffers rule' rule kind.reversed := by
  cases h with
  | removed a => exact .added a
  | added a => exact .removed a
  | constraints h => exact .constraints h.symm
  | presence h => exact .presence h.symm
  | description h => exact .description h.symm

namespace BlockSchema

variable {b b' : BlockSchema} {kind : ChangeKind}

theorem PartDiffers.reversed {part : Part} (h : b.PartDiffers b' kind part) :
    b'.PartDiffers b kind.reversed part := by
  cases h with
  | labels h => exact .labels h.symm
  | limit h => exact .limit h.symm
  | reference h => exact .reference h.symm
  | description h => exact .description h.symm
  | rule name h => exact .rule name h.reversed
  | removed hv hw => exact .added hw hv
  | added hv hw => exact .removed hw hv

theorem DiffersAt.reversed {s : Site} (h : b.DiffersAt b' kind s) :
    b'.DiffersAt b kind.reversed s := by
  obtain ⟨n, n', hn, hn', h⟩ := h
  exact ⟨n', n, hn', hn, h.reversed⟩

theorem differsAt_reversed_iff {s : Site} :
    b'.DiffersAt b kind s ↔ b.DiffersAt b' kind.reversed s := by
  refine ⟨DiffersAt.reversed, fun h => ?_⟩
  rw [← kind.reversed_reversed]
  exact h.reversed

end BlockSchema

/-- Two reports of the same places, the second one with kinds from the other side. -/
theorem Reports.perm_reversed {base : String} {cs cs' : List SchemaChange}
    {P P' : ChangeKind × Site → Prop} (h : Reports base cs P) (h' : Reports base cs' P')
    (hreversed : ∀ kind s, P' (kind, s) ↔ P (kind.reversed, s)) :
    (cs'.map fun c => (c.kind, c.path)).Perm (cs.map fun c => (c.kind.reversed, c.path)) := by
  obtain ⟨ds, hnodup, hmem, hmap⟩ := h
  obtain ⟨ds', hnodup', hmem', hmap'⟩ := h'
  let turn : ChangeKind × Site → ChangeKind × Site := fun d => (d.1.reversed, d.2)
  have hturn : Function.Involutive turn := fun d => by simp [turn]
  -- neither list names a place twice, so they are compared by their members
  have hperm : ds'.Perm (ds.map turn) := by
    refine (List.perm_ext_iff_of_nodup hnodup' (hnodup.map hturn.injective)).2 fun d => ?_
    rw [hmem', List.mem_map_of_involutive hturn, hmem]
    exact hreversed d.1 d.2
  have hpairs := congrArg (List.map fun c : ChangeKind × String => (c.1.reversed, c.2)) hmap
  simp only [List.map_map, Function.comp_def] at hpairs
  rw [hmap', hpairs]
  simpa [turn, Function.comp_def] using hperm.map fun d => (d.1, d.2.text base)

theorem BlockSchema.changes_reversed (b b' : BlockSchema) (path : String) :
    ((b'.changes b path).map fun c => (c.kind, c.path)).Perm
      ((b.changes b' path).map fun c => (c.kind.reversed, c.path)) :=
  (reports_changes b b' path).perm_reversed (reports_changes b' b path) fun _ _ =>
    differsAt_reversed_iff

/-- The kinds and paths of the reverse comparison are, each as often as it occurs, those of the
comparison itself with additions and removals exchanged. -/
theorem SchemaTree.changes_mirrored (old new : SchemaTree) :
    ((new.changes old).map fun c => (c.kind, c.path)).Perm
      ((old.changes new).map fun c => (c.kind.reversed, c.path)) := by
  rw [changes_eq_root, changes_eq_root]
  exact BlockSchema.changes_reversed old.root new.root ""

/-- The order is no mirror image: from either side, what is new comes last. -/
example :
    let old := SchemaTree.empty.withBlock "module" .bare
    let new := SchemaTree.empty.withBlock "output" .bare
    (old.changes new).map (·.path) = ["module", "output"] ∧
      (new.changes old).map (·.path) = ["output", "module"] := by
  decide

end ConfigSchema
