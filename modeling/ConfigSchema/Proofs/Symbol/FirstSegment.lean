import ConfigSchema.Proofs.Address.Steps
import ConfigSchema.Proofs.Symbol.Skipped

/-!
The first segments of references and of symbols. Steps of an address can be left out, and if all of
them are, the symbol stands under the empty path, which is on the way of every reference. Main
statement: a valid tree publishes no such symbol, so a reference leads only to a symbol with the same
first segment.
-/

namespace ConfigSchema

namespace Reference

variable {r : Reference} {b : BlockInstance} {name : Option String} {path : RefPath}

theorem resolve_eq_ok_iff : r.resolve b name = .ok path ↔
    ∃ address, r.address = some address ∧ address.resolve b name = .ok path := by
  unfold resolve
  cases r.address <;> simp

/-- A reference that fits has a mandatory step, which is never left out. -/
theorem FitsIn.resolve_ne_nil {schema : BlockSchema} {isOpen : Bool} (h : r.FitsIn schema isOpen) :
    r.resolve b name ≠ .ok ⟨[]⟩ := by
  intro hnil
  obtain ⟨address, haddress, hnil⟩ := resolve_eq_ok_iff.1 hnil
  obtain ⟨step, hstep, hmandatory⟩ := h.mandatory address haddress
  obtain ⟨a, rfl, -⟩ := Address.resolve_eq_ok_nil_iff.1 hnil step hstep
  exact hmandatory a rfl

end Reference

namespace SymbolTable

open Publication

variable {t : SymbolTable} {path : RefPath} {s : PublishedSymbol}

theorem resolve_nil (t : SymbolTable) : t.resolve ⟨[]⟩ = t.get? ⟨[]⟩ := by
  rw [resolve_eq_findSome?]
  simp [shorterPaths]

/-- A symbol under the empty path leaves no reference unresolved. -/
theorem resolve_ne_none_of_get?_nil (h : t.get? ⟨[]⟩ = some s) (path : RefPath) :
    t.resolve path ≠ none := by
  intro hnone
  have honWay : RefPath.isPrefixOf ⟨[]⟩ path = true :=
    RefPath.isPrefixOf_iff.2 List.nil_prefix
  cases (resolve_eq_none_iff.1 hnone _ honWay).symm.trans h

/-- Without a symbol under the empty path a reference leads to symbols with its first segment
only. -/
theorem head?_of_resolve (hnil : t.get? ⟨[]⟩ = none) (h : t.resolve path = some s) :
    ∃ segment, s.path.segments.head? = some segment ∧ path.segments.head? = some segment := by
  obtain ⟨hs, honWay, -⟩ := longest_of_resolve h
  obtain ⟨rest, hrest⟩ := RefPath.isPrefixOf_iff.1 honWay
  cases hsegments : s.path.segments with
  | nil =>
      have hpath : s.path = ⟨[]⟩ := congrArg RefPath.mk hsegments
      rw [hpath, hnil] at hs
      cases hs
  | cons segment segments =>
      refine ⟨segment, rfl, ?_⟩
      rw [← hrest, hsegments]
      rfl

variable {tree : SchemaTree} {bs : List BlockInstance}

theorem exists_isAt_of_get?_collect (h : (collect tree bs).get? path = some s) :
    ∃ place p, IsAt tree bs place p ∧ p.resolve = .ok path := by
  rw [collect_eq_passes, passes, get?_pass, Option.map_eq_some_iff] at h
  obtain ⟨p, hp, -⟩ := h
  obtain ⟨place, hat, hpath, -⟩ := isFirstAt_of_firstAt hp
  exact ⟨place, p, hat, hpath⟩

theorem get?_collect_nil (ht : tree.WellFormed) (bs : List BlockInstance) :
    (collect tree bs).get? ⟨[]⟩ = none := by
  refine Option.eq_none_iff_forall_not_mem.2 fun s hs => ?_
  obtain ⟨place, p, hat, hnil⟩ := exists_isAt_of_get?_collect hs
  obtain ⟨schema, isOpen, -, hfits, -⟩ := exists_fitsIn_of_isAt ht hat
  exact hfits.resolve_ne_nil hnil

/-- Without validation, an address of which every step is left out leaves no reference
unresolved. -/
theorem resolve_ne_none_of_leftOut {p : Publication} (hp : p ∈ ofDocument tree bs)
    {address : Address} (haddress : p.reference.address = some address)
    (hout : ∀ step ∈ address, ∃ a, step = .attributeValue a true ∧ p.block.attribute? a = none)
    (path : RefPath) : (collect tree bs).resolve path ≠ none := by
  have hnil : p.resolve = .ok ⟨[]⟩ :=
    Reference.resolve_eq_ok_iff.2 ⟨address, haddress, Address.resolve_eq_ok_nil_iff.2 hout⟩
  obtain ⟨s, hs⟩ := exists_get?_collect hp hnil
  exact resolve_ne_none_of_get?_nil hs path

/-- A valid tree publishes no symbol under the empty path. So the empty reference leads to none, and
every other one at most to a symbol with the same first segment. -/
theorem firstSegment_of_validate {tree : SchemaTree} (h : tree.validate = .ok ())
    (bs : List BlockInstance) :
    (∀ path s, (collect tree bs).get? path = some s → s.path = path ∧ path.segments ≠ []) ∧
      (collect tree bs).resolve ⟨[]⟩ = none ∧
      ∀ path s, (collect tree bs).resolve path = some s → ∃ segment,
        s.path.segments.head? = some segment ∧ path.segments.head? = some segment := by
  have hnil := get?_collect_nil (SchemaTree.wellFormed_of_validate h) bs
  refine ⟨fun path s hs => ⟨(collect tree bs).keyed path s hs, fun hsegments => ?_⟩,
    (resolve_nil _).trans hnil, fun path s hs => head?_of_resolve hnil hs⟩
  have hpath : path = ⟨[]⟩ := congrArg RefPath.mk hsegments
  cases hnil.symm.trans (hpath ▸ hs)

/-- Providers, each of which is published under its name and its alias, if it has one. -/
def providers : SchemaTree :=
  SchemaTree.empty.withBlock "provider"
    (((BlockSchema.bare.withLabel (.plain "name" (.plainText "Name"))).withAttribute "alias"
      (.optional [.literal .string])).withReference
        (.addressed .provider [.label 0, .attributeValue "alias" true]))

/-- A provider without an alias. -/
def unaliasedProvider : BlockInstance := (BlockInstance.bare "provider").withLabel "cloud"

theorem firstSegment_of_validate_unaliased :
    providers.validate = .ok () ∧
      ((collect providers [unaliasedProvider]).resolve ⟨["cloud", "west"]⟩).isSome = true ∧
      (∀ s, (collect providers [unaliasedProvider]).resolve ⟨["cloud", "west"]⟩ = some s →
        s.path.segments.head? = some "cloud") ∧
      (collect providers [unaliasedProvider]).resolve ⟨[]⟩ = none := by
  have hvalid : providers.validate = .ok () := by decide
  obtain ⟨-, hnil, hhead⟩ := firstSegment_of_validate hvalid [unaliasedProvider]
  refine ⟨hvalid, by decide, fun s hs => ?_, hnil⟩
  obtain ⟨segment, hsegment, hpath⟩ := hhead _ s hs
  cases hpath
  exact hsegment

end SymbolTable

end ConfigSchema
