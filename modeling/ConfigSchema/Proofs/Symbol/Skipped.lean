import ConfigSchema.Proofs.Address.LabelCount
import ConfigSchema.Proofs.Schema.Validity
import ConfigSchema.Proofs.Symbol.Accounting

/-!
What validation says about the publications of documents. Every reference at work is one that the
schema of its block was checked for. Main statements: with a valid tree no publication fails for the
lack of the name of an attribute, nor for the lack of labels in a block that has all that its schema
declares; and the collection of symbols does not stop.
-/

namespace ConfigSchema

/-- A reference fails for the reason for which its address does, unless it has none. -/
theorem Reference.exists_address_of_resolve {r : Reference} {b : BlockInstance}
    {name : Option String} {reason : Unresolved} (h : r.resolve b name = .error reason)
    (hreason : reason ≠ .noAddress) :
    ∃ address, r.address = some address ∧ address.resolve b name = .error reason := by
  unfold resolve at h
  split at h
  next address haddress => exact ⟨address, haddress, h⟩
  next => exact absurd (Except.error.inj h).symm hreason

namespace Publication

variable {tree : SchemaTree} {bs : List BlockInstance} {place : Place} {p : Publication}

theorem mem_of_isAt (h : IsAt tree bs place p) : p.block ∈ bs := by
  cases h with
  | ofBlock hb => exact List.mem_of_getElem? hb
  | ofAttribute hb => exact List.mem_of_getElem? hb

/-- The references at work fit in their schemas, and only those of attributes are open. -/
theorem exists_fitsIn_of_isAt (ht : tree.WellFormed) (h : IsAt tree bs place p) :
    ∃ schema isOpen, tree.block? p.block.blockType = some schema ∧
      p.reference.FitsIn schema isOpen ∧ (isOpen = true → p.name ≠ none) := by
  cases h with
  | ofBlock hb hschema hr =>
      exact ⟨_, false, hschema, (ht [_] _ hschema).reference _ hr, nofun⟩
  | ofAttribute hb hschema hv ha hr =>
      rw [BlockSchema.attributeFor?, Option.or_eq_some_iff] at ha
      rcases ha with ha | ⟨-, ha⟩
      · exact ⟨_, false, hschema, (ht [_] _ hschema).listedReferences _ _ _ ha hr, nofun⟩
      · exact ⟨_, true, hschema, (ht [_] _ hschema).openReference _ _ ha hr, fun _ => nofun⟩

theorem resolve_ne_noAttributeName (ht : tree.WellFormed) (h : IsAt tree bs place p) :
    p.resolve ≠ .error .noAttributeName := by
  intro hresolve
  obtain ⟨schema, isOpen, -, hfits, hname⟩ := exists_fitsIn_of_isAt ht h
  obtain ⟨address, haddress, hresolve⟩ := Reference.exists_address_of_resolve hresolve nofun
  obtain ⟨step, hstep, hfails⟩ := Address.exists_fails_of_resolve hresolve
  cases hfails with
  | noAttributeName hnone =>
      exact hname (hfits.attributeName address haddress hstep) hnone

/-- A publication that fails for the lack of labels needs no more than its schema declares, and its
block has fewer. -/
theorem labels_of_tooFewLabels (ht : tree.WellFormed) (h : IsAt tree bs place p)
    {needed found : UInt64} (hresolve : p.resolve = .error (.tooFewLabels needed found)) :
    ∃ schema, tree.block? p.block.blockType = some schema ∧
      found.toNat = p.block.labels.length ∧ p.block.labels.length < schema.labels.length ∧
      needed.toNat ≤ schema.labels.length ∧ found < needed := by
  obtain ⟨schema, isOpen, hschema, hfits, -⟩ := exists_fitsIn_of_isAt ht h
  obtain ⟨address, haddress, hresolve⟩ := Reference.exists_address_of_resolve hresolve nofun
  obtain ⟨hneeded, hfound, i, hi, hle⟩ := Address.exists_label_of_tooFewLabels hresolve
  have hdeclared := hfits.labels address haddress i hi
  have hread := (Address.requiredLabels_le_iff hneeded).1 (Nat.le_refl _) i hi
  refine ⟨schema, hschema, hfound, by omega,
    (Address.requiredLabels_le_iff hneeded).2 (hfits.labels address haddress), ?_⟩
  rw [UInt64.lt_iff_toNat_lt]
  omega

/-- A publication whose number of needed labels is no word comes from a schema that declares more
labels than words can count. -/
theorem labels_of_overflow (ht : tree.WellFormed) (h : IsAt tree bs place p)
    (hresolve : p.resolve = .error .overflow) :
    ∃ schema, tree.block? p.block.blockType = some schema ∧
      UInt64.size ≤ schema.labels.length := by
  obtain ⟨schema, isOpen, hschema, hfits, -⟩ := exists_fitsIn_of_isAt ht h
  obtain ⟨address, haddress, hresolve⟩ := Reference.exists_address_of_resolve hresolve nofun
  obtain ⟨-, hlast⟩ := Address.resolve_eq_overflow_iff.1 hresolve
  exact ⟨schema, hschema, hfits.labels address haddress _ hlast⟩

end Publication

namespace SymbolTable

open Publication

theorem exists_isAt_of_mem_skipped {tree : SchemaTree} {bs : List BlockInstance}
    {s : SkippedSymbol} (h : s ∈ (collect tree bs).skipped) :
    ∃ place p, IsAt tree bs place p ∧ p.resolve = .error s.reason ∧
      s.blockType = p.block.blockType := by
  rw [skipped_collect, ← map_snd_placed, List.filterMap_map, List.mem_filterMap] at h
  obtain ⟨⟨place, p⟩, hp, hs⟩ := h
  obtain ⟨reason, hreason, rfl⟩ := skipped?_eq_some_iff.1 hs
  exact ⟨place, p, mem_placed.1 hp, hreason, rfl⟩

/-- The collection stops just when there would be a publication whose labels cannot be counted. -/
theorem collect?_eq_some_iff {tree : SchemaTree} {bs : List BlockInstance} {t : SymbolTable} :
    collect? tree bs = some t ↔
      collect tree bs = t ∧ ∀ s ∈ t.skipped, s.reason ≠ .overflow := by
  have hany : ((ofDocument tree bs).any (·.resolve.stops)) = true ↔
      ∃ s ∈ (collect tree bs).skipped, s.reason = .overflow := by
    simp only [List.any_eq_true, Resolution.stops_iff, skipped_collect, List.mem_filterMap,
      skipped?_eq_some_iff]
    constructor
    · rintro ⟨p, hp, hresolve⟩
      exact ⟨_, ⟨p, hp, _, hresolve, rfl⟩, rfl⟩
    · rintro ⟨_, ⟨p, hp, _, hresolve, rfl⟩, rfl⟩
      exact ⟨p, hp, hresolve⟩
  rw [collect?]
  split
  next h =>
    obtain ⟨s, hs, hreason⟩ := hany.1 h
    refine ⟨nofun, ?_⟩
    rintro ⟨rfl, hnone⟩
    exact absurd hreason (hnone s hs)
  next h =>
    rw [Option.some.injEq]
    refine ⟨?_, And.left⟩
    rintro rfl
    exact ⟨rfl, fun s hs hreason => h (hany.2 ⟨s, hs, hreason⟩)⟩

/-- With a valid tree the collection does not stop, as long as words can count the labels that are
declared. -/
theorem collect?_of_validate {tree : SchemaTree} (h : tree.validate = .ok ())
    (hlabels : ∀ name schema, tree.block? name = some schema →
      schema.labels.length < UInt64.size) (bs : List BlockInstance) :
    collect? tree bs = some (collect tree bs) := by
  refine collect?_eq_some_iff.2 ⟨rfl, fun s hs hreason => ?_⟩
  obtain ⟨place, p, hp, hresolve, -⟩ := exists_isAt_of_mem_skipped hs
  obtain ⟨schema, hschema, hsize⟩ :=
    labels_of_overflow (SchemaTree.wellFormed_of_validate h) hp (hreason ▸ hresolve)
  exact Nat.not_le_of_lt (hlabels _ schema hschema) hsize

/-- With a valid tree the listed reasons never ask for the name of an attribute. Those that ask for
labels come from blocks that have fewer of them than are needed, which are no more than their schema
declares; so a block with all the declared labels never gives such a reason. -/
theorem skipped_of_validate {tree : SchemaTree} (h : tree.validate = .ok ())
    (bs : List BlockInstance) :
    (∀ s ∈ (collect tree bs).skipped, s.reason ≠ .noAttributeName ∧
      ∀ needed found, s.reason = .tooFewLabels needed found →
        ∃ schema, tree.block? s.blockType = some schema ∧
          (∃ b ∈ bs, b.blockType = s.blockType ∧ found.toNat = b.labels.length ∧
            b.labels.length < schema.labels.length) ∧
          needed.toNat ≤ schema.labels.length ∧
          (schema.labels.length < UInt64.size → found < needed)) ∧
    ∀ place p schema, IsAt tree bs place p → tree.block? p.block.blockType = some schema →
      schema.labels.length ≤ p.block.labels.length →
        ∀ needed found, p.resolve ≠ .error (.tooFewLabels needed found) := by
  have ht := SchemaTree.wellFormed_of_validate h
  constructor
  · intro s hs
    obtain ⟨place, p, hp, hreason, htype⟩ := exists_isAt_of_mem_skipped hs
    refine ⟨fun he => resolve_ne_noAttributeName ht hp (he ▸ hreason), fun needed found he => ?_⟩
    obtain ⟨schema, hschema, hfound, hfewer, hneeded, hlt⟩ :=
      labels_of_tooFewLabels ht hp (he ▸ hreason)
    exact ⟨schema, htype ▸ hschema, ⟨p.block, mem_of_isAt hp, htype.symm, hfound, hfewer⟩,
      hneeded, fun _ => hlt⟩
  · intro place p schema hp hschema hlabels needed found hresolve
    obtain ⟨schema', hschema', -, hfewer, -⟩ := labels_of_tooFewLabels ht hp hresolve
    cases hschema.symm.trans hschema'
    omega

/-- Blocks that are published under their two labels. -/
def labelledResources : SchemaTree :=
  SchemaTree.empty.withBlock "resource"
    (((BlockSchema.bare.withLabel (.plain "type" (.plainText "Type"))).withLabel
      (.plain "name" (.plainText "Name"))).withReference
        (.addressed .resource [.label 0, .label 1]))

/-- A block that lacks its second label. -/
def unnamedResource : BlockInstance := (BlockInstance.bare "resource").withLabel "disk"

theorem skipped_of_validate_unnamed :
    labelledResources.validate = .ok () ∧
    (⟨"resource", none, .tooFewLabels 2 1⟩ : SkippedSymbol) ∈
      (collect labelledResources [unnamedResource]).skipped ∧
    ∃ schema, labelledResources.block? "resource" = some schema ∧
      UInt64.toNat 2 ≤ schema.labels.length ∧
      (schema.labels.length < UInt64.size → (1 : UInt64) < 2) := by
  have hvalid : labelledResources.validate = .ok () := by decide
  have hmem : (⟨"resource", none, .tooFewLabels 2 1⟩ : SkippedSymbol) ∈
      (collect labelledResources [unnamedResource]).skipped := by decide
  obtain ⟨hlisted, -⟩ := skipped_of_validate hvalid [unnamedResource]
  obtain ⟨-, hlabels⟩ := hlisted _ hmem
  obtain ⟨schema, hschema, -, hneeded, hlt⟩ := hlabels 2 1 rfl
  exact ⟨hvalid, hmem, schema, hschema, hneeded, hlt⟩

end SymbolTable

end ConfigSchema
