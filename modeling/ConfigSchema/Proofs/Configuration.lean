import ConfigSchema.Constraint.Match
import ConfigSchema.Schema.Basic
import ConfigSchema.SortedMap.Lemmas

/-!
Configurations, and which of them a schema accepts. A configuration is a list of blocks with blocks
nested in them; the values of their attributes are known as far as constraints look at them.
-/

namespace ConfigSchema

/-- A block in a configuration. -/
structure Occurrence where
  blockType : String
  labels : List String
  attributes : SortedMap String Candidate
  nested : List Occurrence

/-- The number of labels is right, every attribute is known and satisfies its constraints, and no
required attribute is missing. -/
structure BlockSchema.Admits (b : BlockSchema) (o : Occurrence) : Prop where
  labels : o.labels.length = b.labels.length
  known : ∀ name c, o.attributes.get? name = some c →
    ∃ a, b.attributeFor? name = some a ∧ a.constraints.isSatisfiedBy c = true
  required : ∀ name ∈ b.requiredAttributes, o.attributes.contains name = true

/-- No block occurs more often than its limit allows. -/
def BlockMap.KeepsLimits (m : BlockMap) (os : List Occurrence) : Prop :=
  ∀ name b n, m.get? name = some b → b.maxItems = some n →
    os.countP (fun o => o.blockType = name) ≤ n.toNat

/-- The block is as its schema says, and so are the blocks nested in it. -/
inductive BlockSchema.Accepts : BlockSchema → Occurrence → Prop
  | intro {b : BlockSchema} {o : Occurrence} : b.Admits o → BlockMap.KeepsLimits b.blocks o.nested →
    (∀ i ∈ o.nested, b.blocks.contains i.blockType = true) →
    (∀ i ∈ o.nested, ∀ n, b.blocks.get? i.blockType = some n → BlockSchema.Accepts n i) →
    BlockSchema.Accepts b o

/-- Every block of the configuration has a schema that accepts it, and the limits are kept. -/
def BlockMap.Accepts (m : BlockMap) (os : List Occurrence) : Prop :=
  BlockMap.KeepsLimits m os ∧ ∀ o ∈ os, ∃ b, m.get? o.blockType = some b ∧ b.Accepts o

def SchemaTree.Accepts (t : SchemaTree) (os : List Occurrence) : Prop :=
  BlockMap.Accepts t.blocks os

theorem BlockSchema.accepts_iff {b : BlockSchema} {o : Occurrence} :
    b.Accepts o ↔ b.Admits o ∧ BlockMap.Accepts b.blocks o.nested := by
  constructor
  · rintro ⟨hb, hlimits, hknown, hnested⟩
    refine ⟨hb, hlimits, fun i hi => ?_⟩
    obtain ⟨n, hn⟩ := Entries.contains_iff.1 (hknown i hi)
    exact ⟨n, hn, hnested i hi n hn⟩
  · rintro ⟨hb, hlimits, hnested⟩
    refine ⟨hb, hlimits, fun i hi => ?_, fun i hi n hn => ?_⟩
    · obtain ⟨n, hn, -⟩ := hnested i hi
      exact Entries.contains_iff.2 ⟨n, hn⟩
    · obtain ⟨n', hn', h⟩ := hnested i hi
      cases hn.symm.trans hn'
      exact h

theorem BlockSchema.mem_requiredAttributes {b : BlockSchema} {name : String} :
    name ∈ b.requiredAttributes ↔
      ∃ a, b.attributes.get? name = some a ∧ a.isRequired = true := by
  simp [requiredAttributes, Entries.get?_eq_some_iff]

end ConfigSchema
