import ConfigSchema.Fingerprint.Basic
import ConfigSchema.Proofs.Json.Schema
import ConfigSchema.Proofs.Json.Text
import ConfigSchema.Proofs.Text.ByteOrder

/-!
A fingerprint covers the whole schema. The tree is read back from its document and the document is
determined by its text, so nothing of a tree leaves the hashed bytes unchanged.
-/

namespace ConfigSchema

theorem SchemaTree.document_injective : Function.Injective SchemaTree.document := by
  intro t t' h
  have hread := t.recovers
  rw [Recovers, h, t'.recovers] at hread
  exact (Option.some.inj hread).symm

namespace Fingerprint

/-- The fingerprint of a tree is that of its compact text. Different trees have different texts, of
different bytes. -/
theorem ofTree_covers : (∀ t, ofTree t = ofText t.document.compact) ∧
    (Function.Injective fun t : SchemaTree => t.document.compact) ∧
      Function.Injective fun t : SchemaTree => Text.bytes t.document.compact := by
  have htext : Function.Injective fun t : SchemaTree => t.document.compact :=
    Document.compact_injective.comp SchemaTree.document_injective
  exact ⟨fun _ => rfl, htext, Text.bytes_injective.comp htext⟩

end Fingerprint

end ConfigSchema
