import ConfigSchema.Proofs.Address.Readable
import ConfigSchema.Proofs.Symbol.Chain

/-!
References to published symbols that are written as dotted text. Main statement: the text of a
published path leads to its symbol just when the address of the publication is spelled in segments,
and such paths are told apart by their texts.
-/

namespace ConfigSchema

namespace SymbolTable

open Publication (firstAt ofDocument)

/-- Only symbols under readable paths are found by way of readable paths. -/
theorem readable_of_resolve {t : SymbolTable} {p : RefPath} (hp : p.Readable)
    {s : PublishedSymbol} (h : t.resolve p = some s) : s.path.Readable := by
  obtain ⟨-, honWay, -⟩ := longest_of_resolve h
  exact fun segment hsegment => hp segment ((RefPath.isPrefixOf_iff.1 honWay).subset hsegment)

/-- The text of a published path leads to its symbol just when the path is readable. -/
theorem resolve_text_iff {t : SymbolTable} {p : RefPath} {s : PublishedSymbol}
    (h : t.get? p = some s) : t.resolve (RefPath.parse p.text) = some s ↔ p.Readable := by
  constructor
  · intro hs
    have hreadable := readable_of_resolve (RefPath.readable_parse p.text) hs
    rwa [t.keyed p s h] at hreadable
  · intro hp
    rw [RefPath.parse_text hp]
    exact resolve_of_get? h

/-- Every publication that resolves puts a symbol under its path. -/
theorem exists_get?_collect {tree : SchemaTree} {bs : List BlockInstance} {d : Publication}
    (hd : d ∈ ofDocument tree bs) {p : RefPath} (hp : d.resolve = .ok p) :
    ∃ s, (collect tree bs).get? p = some s := by
  have hpath : d.path? = some p := by rw [Publication.path?, hp]; rfl
  have hfirst : (firstAt (ofDocument tree bs) p).isSome := by
    rw [firstAt, List.find?_isSome]
    exact ⟨d, hd, by simpa using hpath⟩
  obtain ⟨first, hfirst⟩ := Option.isSome_iff_exists.1 hfirst
  rw [collect_eq_passes, passes, get?_pass, hfirst]
  exact ⟨_, rfl⟩

/-- The path of an address is readable, and so reads back from its text, just when the address is
spelled in segments. It is then that the text leads to the symbol published under the path, and no
other path of an address that is spelled so has the same text. -/
theorem dottedForm_iff {address : Address} {b : BlockInstance} {name : Option String} {p : RefPath}
    (h : address.resolve b name = .ok p) :
    (p.Readable ↔ address.IsSpelled name) ∧
      (RefPath.parse p.text = p ↔ address.IsSpelled name) ∧
      (∀ (tree : SchemaTree) (bs : List BlockInstance), ∀ d ∈ ofDocument tree bs,
        d.resolve = .ok p → ∃ s, (collect tree bs).get? p = some s ∧
          ((collect tree bs).resolve (RefPath.parse p.text) = some s ↔ address.IsSpelled name)) ∧
      (address.IsSpelled name → ∀ (address' : Address) (b' : BlockInstance)
        (name' : Option String) (p' : RefPath), address'.resolve b' name' = .ok p' →
          address'.IsSpelled name' → p.text = p'.text → p = p') := by
  have hreadable : p.Readable ↔ address.IsSpelled name := Address.readable_iff h
  refine ⟨hreadable, RefPath.parse_text_eq_iff.trans hreadable, ?_, ?_⟩
  · intro tree bs d hd hp
    obtain ⟨s, hs⟩ := exists_get?_collect hd hp
    refine ⟨s, hs, ?_⟩
    rw [resolve_text_iff hs, hreadable]
  · intro hspelled address' b' name' p' h' hspelled' htext
    have hp : p.Readable := hreadable.2 hspelled
    have hp' : p'.Readable := (Address.readable_iff h').2 hspelled'
    exact RefPath.text_injective hp hp' htext

/-- Blocks of local values, each of which is published under its own name. -/
def localValues : SchemaTree :=
  SchemaTree.empty.withBlock "locals" (BlockSchema.bare.withOpenRule
    ((AttributeSchema.optional [.any]).withReference
      (.addressed .localValue [.fixed "local", .attributeName])))

/-- A block with one local value. -/
def localValue (name : String) : BlockInstance :=
  (BlockInstance.bare "locals").withLiteral name (.bool true)

/-- The publication of a local value. -/
def localPublication (name : String) : Publication :=
  ⟨localValue name, some name, .addressed .localValue [.fixed "local", .attributeName]⟩

theorem resolve_text_region :
    ∃ s, (collect localValues [localValue "region"]).get? ⟨["local", "region"]⟩ = some s ∧
      (collect localValues [localValue "region"]).resolve (RefPath.parse "local.region") =
        some s := by
  have hpath : Address.resolve [.fixed "local", .attributeName] (localValue "region")
      (some "region") = .ok ⟨["local", "region"]⟩ := by decide
  have hmem : localPublication "region" ∈ ofDocument localValues [localValue "region"] := by
    have hall : ofDocument localValues [localValue "region"] = [localPublication "region"] := rfl
    rw [hall]
    exact List.mem_singleton.2 rfl
  have hspelled : Address.IsSpelled [.fixed "local", .attributeName] (some "region") := by
    intro step hstep
    obtain rfl | rfl : step = .fixed "local" ∨ step = .attributeName := by simpa using hstep
    · exact RefPath.isSegment_iff.2 (by decide)
    · rintro n ⟨⟩
      exact RefPath.isSegment_iff.2 (by decide)
  obtain ⟨-, -, htable, -⟩ := dottedForm_iff hpath
  obtain ⟨s, hs, htext⟩ := htable _ _ _ hmem hpath
  exact ⟨s, hs, htext.2 hspelled⟩

/-- The name of a local value is taken as it is, even if it holds a point. Its path then does not
read back, and the text does not lead to the symbol. -/
theorem not_readable_pointInName :
    (localPublication "a.b").resolve = .ok ⟨["local", "a.b"]⟩ ∧
      ¬RefPath.Readable ⟨["local", "a.b"]⟩ ∧
      RefPath.parse (RefPath.text ⟨["local", "a.b"]⟩) ≠ ⟨["local", "a.b"]⟩ ∧
      ((collect localValues [localValue "a.b"]).get? ⟨["local", "a.b"]⟩).isSome = true ∧
      (collect localValues [localValue "a.b"]).resolve
        (RefPath.parse (RefPath.text ⟨["local", "a.b"]⟩)) = none := by
  refine ⟨?_, ?_, ?_, ?_, ?_⟩ <;> decide

end SymbolTable

end ConfigSchema
