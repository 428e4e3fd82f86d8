import ConfigSchema.Proofs.Configuration
import ConfigSchema.Proofs.Constraint.Meaning
import ConfigSchema.Proofs.Schema.Paths

/-!
Schemas that ask for less. A block is relaxed when its limits, constraints and required attributes
only become weaker, and a schema is extended when every block of it is still there under its path,
relaxed. Main statement: what a schema accepts is accepted by every schema that extends it.
-/

namespace ConfigSchema

/-- Every value of the attribute is still accepted, and the attribute has not become required. -/
structure AttributeSchema.RelaxedTo (old new : AttributeSchema) : Prop where
  constraints : old.constraints.Within new.constraints
  required : new.isRequired = true → old.isRequired = true

/-- The second limit is the higher one, or there is none. -/
def BlockSchema.LimitRelaxedTo (old new : BlockSchema) : Prop :=
  ∀ n, new.maxItems = some n → ∃ m, old.maxItems = some m ∧ m ≤ n

/-- What the block itself admits is still admitted: attributes may be added, but they are optional,
and they accept what the open rule accepted under their names. -/
structure BlockSchema.RelaxedTo (old new : BlockSchema) : Prop where
  labels : old.labels.length = new.labels.length
  limit : old.LimitRelaxedTo new
  kept : ∀ name a, old.attributes.get? name = some a →
    ∃ a', new.attributes.get? name = some a' ∧ a.RelaxedTo a'
  added : ∀ name a', new.attributes.get? name = some a' → old.attributes.get? name = none →
    a'.isRequired = false ∧
      ∀ r, old.openRule = some r → r.constraints.Within a'.constraints
  openRule : ∀ r, old.openRule = some r →
    ∃ r', new.openRule = some r' ∧ r.constraints.Within r'.constraints

/-- Every block of the first map is in the second one under the same path, relaxed. -/
def BlockMap.ExtendedBy (old new : BlockMap) : Prop :=
  ∀ path b, old.at? path = some b → ∃ b', new.at? path = some b' ∧ b.RelaxedTo b'

def SchemaTree.ExtendedBy (old new : SchemaTree) : Prop :=
  BlockMap.ExtendedBy old.blocks new.blocks

namespace AttributeSchema.RelaxedTo

theorem refl (a : AttributeSchema) : a.RelaxedTo a := ⟨.refl _, id⟩

theorem trans {a b c : AttributeSchema} (h : a.RelaxedTo b) (h' : b.RelaxedTo c) :
    a.RelaxedTo c :=
  ⟨h.constraints.trans h'.constraints, fun hc => h.required (h'.required hc)⟩

end AttributeSchema.RelaxedTo

namespace BlockSchema

namespace LimitRelaxedTo

theorem refl (b : BlockSchema) : b.LimitRelaxedTo b := fun n hn => ⟨n, hn, UInt64.le_refl n⟩

theorem trans {a b c : BlockSchema} (h : a.LimitRelaxedTo b) (h' : b.LimitRelaxedTo c) :
    a.LimitRelaxedTo c := by
  intro n hn
  obtain ⟨m, hm, hmn⟩ := h' n hn
  obtain ⟨k, hk, hkm⟩ := h m hm
  exact ⟨k, hk, UInt64.le_trans hkm hmn⟩

end LimitRelaxedTo

namespace RelaxedTo

variable {a b c : BlockSchema}

theorem refl (b : BlockSchema) : b.RelaxedTo b where
  labels := rfl
  limit := .refl b
  kept _ a ha := ⟨a, ha, .refl a⟩
  added _ _ ha hn := by
    rw [ha] at hn
    cases hn
  openRule r hr := ⟨r, hr, .refl _⟩

/-- A block with other nested blocks is relaxed as far as it itself is concerned. -/
theorem of_eq (labels : b.labels = a.labels) (attributes : b.attributes = a.attributes)
    (openRule : b.openRule = a.openRule) (maxItems : b.maxItems = a.maxItems) :
    a.RelaxedTo b := by
  obtain ⟨h, hlimit, hkept, hadded, hopen⟩ := refl a
  refine ⟨by rw [labels], fun n hn => hlimit n (maxItems ▸ hn), ?_, ?_, ?_⟩
  · rwa [attributes]
  · rwa [attributes]
  · rwa [openRule]

theorem trans (h : a.RelaxedTo b) (h' : b.RelaxedTo c) : a.RelaxedTo c where
  labels := h.labels.trans h'.labels
  limit := h.limit.trans h'.limit
  kept name x hx := by
    obtain ⟨y, hy, hxy⟩ := h.kept name x hx
    obtain ⟨z, hz, hyz⟩ := h'.kept name y hy
    exact ⟨z, hz, hxy.trans hyz⟩
  added name z hz hnone := by
    cases hy : b.attributes.get? name with
    | none =>
        -- the attribute comes with the second step, and the open rule is judged by way of the first
        obtain ⟨hoptional, hopen⟩ := h'.added name z hz hy
        refine ⟨hoptional, fun r hr => ?_⟩
        obtain ⟨r', hr', hrr'⟩ := h.openRule r hr
        exact hrr'.trans (hopen r' hr')
    | some y =>
        obtain ⟨hoptional, hopen⟩ := h.added name y hy hnone
        obtain ⟨z', hz', hyz⟩ := h'.kept name y hy
        cases hz.symm.trans hz'
        refine ⟨?_, fun r hr => (hopen r hr).trans hyz.constraints⟩
        cases hrequired : z.isRequired with
        | false => rfl
        | true => exact absurd (hyz.required hrequired) (by simp [hoptional])
  openRule r hr := by
    obtain ⟨r', hr', hrr'⟩ := h.openRule r hr
    obtain ⟨r'', hr'', hr'r''⟩ := h'.openRule r' hr'
    exact ⟨r'', hr'', hrr'.trans hr'r''⟩

/-- A name that the block knows is known after the relaxation, too. -/
theorem attributeFor? (h : a.RelaxedTo b) {name : String} {x : AttributeSchema}
    (hx : a.attributeFor? name = some x) :
    ∃ y, b.attributeFor? name = some y ∧ x.constraints.Within y.constraints := by
  rw [BlockSchema.attributeFor?] at hx ⊢
  cases hold : a.attributes.get? name with
  | some _ =>
      rw [hold] at hx
      cases hx
      obtain ⟨y, hy, hxy⟩ := h.kept name _ hold
      exact ⟨y, by rw [hy]; rfl, hxy.constraints⟩
  | none =>
      rw [hold, Option.none_or] at hx
      cases hnew : b.attributes.get? name with
      | some y => exact ⟨y, rfl, (h.added name y hnew hold).2 x hx⟩
      | none =>
          obtain ⟨y, hy, hxy⟩ := h.openRule x hx
          exact ⟨y, by rw [hy]; rfl, hxy⟩

theorem admits (h : a.RelaxedTo b) {o : Occurrence} (ho : a.Admits o) : b.Admits o := by
  refine ⟨ho.labels.trans h.labels, fun name c hc => ?_, fun name hname => ?_⟩
  · obtain ⟨x, hx, hxc⟩ := ho.known name c hc
    obtain ⟨y, hy, hxy⟩ := h.attributeFor? hx
    exact ⟨y, hy, hxy c hxc⟩
  · obtain ⟨y, hy, hrequired⟩ := mem_requiredAttributes.1 hname
    cases hx : a.attributes.get? name with
    | none => simp [(h.added name y hy hx).1] at hrequired
    | some x =>
        obtain ⟨y', hy', hxy⟩ := h.kept name x hx
        cases hy.symm.trans hy'
        exact ho.required name (mem_requiredAttributes.2 ⟨x, hx, hxy.required hrequired⟩)

end RelaxedTo

end BlockSchema

namespace BlockMap

/-- Limits that leave more room are kept, too, as long as every block is of a known type. -/
theorem KeepsLimits.of_relaxed {old new : BlockMap} {os : List Occurrence}
    (h : KeepsLimits old os) (hknown : ∀ o ∈ os, old.contains o.blockType = true)
    (hblocks : ∀ name b, old.get? name = some b →
      ∃ b', new.get? name = some b' ∧ b.LimitRelaxedTo b') : KeepsLimits new os := by
  intro name b' n hb' hn
  cases hb : old.get? name with
  | some b =>
      obtain ⟨b'', hb'', hlimit⟩ := hblocks name b hb
      cases hb'.symm.trans hb''
      obtain ⟨m, hm, hmn⟩ := hlimit n hn
      exact Nat.le_trans (h name b m hb hm) (UInt64.le_iff_toNat_le.1 hmn)
  | none =>
      have hzero : os.countP (fun o => o.blockType = name) = 0 := by
        refine List.countP_eq_zero.2 fun o ho => ?_
        obtain ⟨b, hb'⟩ := Entries.contains_iff.1 (hknown o ho)
        intro e
        rw [of_decide_eq_true e, hb] at hb'
        cases hb'
      omega

namespace ExtendedBy

variable {m m' m'' : BlockMap} {name : String} {b b' : BlockSchema}

theorem refl (m : BlockMap) : m.ExtendedBy m := EachIn.refl .refl m

theorem trans (h : m.ExtendedBy m') (h' : m'.ExtendedBy m'') : m.ExtendedBy m'' :=
  EachIn.trans (fun _ _ _ => .trans) h h'

/-- The extension as a recursion: every block is still there, relaxed, and its nested blocks are
extended. -/
theorem iff_get? : m.ExtendedBy m' ↔ ∀ name b, m.get? name = some b →
    ∃ b', m'.get? name = some b' ∧ b.RelaxedTo b' ∧ ExtendedBy b.blocks b'.blocks :=
  eachIn_iff_get?

/-- The map with a relaxed block in place of the one that was there. -/
theorem insert (hb : m.get? name = some b) (hrelaxed : b.RelaxedTo b')
    (hblocks : ExtendedBy b.blocks b'.blocks) : m.ExtendedBy (m.insert name b') :=
  EachIn.insert .refl hb hrelaxed hblocks

/-- The map with a block of a new type. -/
theorem insert_new (hb : m.get? name = none) (b' : BlockSchema) :
    m.ExtendedBy (m.insert name b') := EachIn.insert_new .refl hb b'

end ExtendedBy

end BlockMap

/-- The induction is on the acceptance of the block, so every nested block comes with the acceptance
of its own. -/
theorem BlockSchema.Accepts.of_extendedBy {b b' : BlockSchema} {o : Occurrence} (h : b.Accepts o)
    (hrelaxed : b.RelaxedTo b') (hblocks : BlockMap.ExtendedBy b.blocks b'.blocks) :
    b'.Accepts o := by
  induction h generalizing b' with
  | @intro b o hadmits hlimits hknown _ ih =>
      rw [BlockMap.ExtendedBy.iff_get?] at hblocks
      refine accepts_iff.2 ⟨hrelaxed.admits hadmits, hlimits.of_relaxed hknown ?_, fun i hi => ?_⟩
      · intro name n hn
        obtain ⟨n', hn', hnn', -⟩ := hblocks name n hn
        exact ⟨n', hn', hnn'.limit⟩
      · obtain ⟨n, hn⟩ := Entries.contains_iff.1 (hknown i hi)
        obtain ⟨n', hn', hnn', hnested⟩ := hblocks i.blockType n hn
        exact ⟨n', hn', ih i hi n hn hnn' hnested⟩

namespace SchemaTree

theorem ExtendedBy.refl (t : SchemaTree) : t.ExtendedBy t := BlockMap.ExtendedBy.refl _

theorem ExtendedBy.trans {t u w : SchemaTree} (h : t.ExtendedBy u) (h' : u.ExtendedBy w) :
    t.ExtendedBy w := BlockMap.ExtendedBy.trans h h'

/-- What a schema accepts is accepted by every schema that extends it. -/
theorem Accepts.of_extendedBy {t u : SchemaTree} {os : List Occurrence} (h : t.Accepts os)
    (hextended : t.ExtendedBy u) : u.Accepts os := by
  obtain ⟨hlimits, haccepts⟩ := h
  have hblocks := BlockMap.ExtendedBy.iff_get?.1 hextended
  refine ⟨hlimits.of_relaxed (fun o ho => ?_) fun name b hb => ?_, fun o ho => ?_⟩
  · obtain ⟨b, hb, -⟩ := haccepts o ho
    exact Entries.contains_iff.2 ⟨b, hb⟩
  · obtain ⟨b', hb', hbb', -⟩ := hblocks name b hb
    exact ⟨b', hb', hbb'.limit⟩
  · obtain ⟨b, hb, hbo⟩ := haccepts o ho
    obtain ⟨b', hb', hbb', hnested⟩ := hblocks o.blockType b hb
    exact ⟨b', hb', hbo.of_extendedBy hbb' hnested⟩

end SchemaTree

end ConfigSchema
