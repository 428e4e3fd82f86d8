import ConfigSchema.Proofs.Diff.Breaking
import ConfigSchema.Proofs.Schema.Relaxation

/-!
What a report without breaking changes says about configurations. Listing an attribute takes its
name away from the open rule of the block, and an optional attribute that is added never counts as
breaking. Main statement: apart from such attributes, a configuration that the old schema accepts is
accepted by a compatible one.
-/

namespace ConfigSchema

/-- Some configuration can have the block: it is not ruled out by its limit, and every required
attribute has a value. -/
structure BlockSchema.CanOccur (b : BlockSchema) : Prop where
  limit : b.maxItems ≠ some 0
  required : ∀ name a, b.attributes.get? name = some a → a.isRequired = true →
    ∃ c, a.constraints.isSatisfiedBy c = true

/-- The new block lists an attribute that the old one leaves to its open rule, and refuses a value
that the open rule accepts; or it is so for two nested blocks. -/
inductive BlockSchema.ShadowedBy : BlockSchema → BlockSchema → Prop
  | here {old new : BlockSchema} {name : String} {r a : AttributeSchema} (c : Candidate) :
    old.CanOccur → old.attributes.get? name = none → old.openRule = some r →
    new.attributes.get? name = some a → r.constraints.isSatisfiedBy c = true →
    a.constraints.isSatisfiedBy c = false → BlockSchema.ShadowedBy old new
  | nested {old new b b' : BlockSchema} {name : String} :
    old.CanOccur → old.blocks.get? name = some b → new.blocks.get? name = some b' →
    BlockSchema.ShadowedBy b b' → BlockSchema.ShadowedBy old new

/-- Some block that both trees have is shadowed. -/
def SchemaTree.ShadowedBy (old new : SchemaTree) : Prop :=
  ∃ name b b', old.blocks.get? name = some b ∧ new.blocks.get? name = some b' ∧ b.ShadowedBy b'

theorem AttributeSchema.KeptBy.within {a a' : AttributeSchema} (h : a.KeptBy a') :
    a.constraints.Within a'.constraints :=
  ConstraintSet.within_of_subset h.alternatives

namespace BlockSchema

theorem ShadowedBy.canOccur {old new : BlockSchema} (h : old.ShadowedBy new) : old.CanOccur := by
  cases h <;> assumption

theorem Admits.canOccur {b : BlockSchema} {o : Occurrence} (h : b.Admits o)
    (hlimit : b.maxItems ≠ some 0) : b.CanOccur := by
  refine ⟨hlimit, fun name a ha hr => ?_⟩
  obtain ⟨c, hc⟩ := Entries.contains_iff.1 (h.required name (mem_requiredAttributes.2 ⟨a, ha, hr⟩))
  obtain ⟨a', ha', hac⟩ := h.known name c hc
  rw [attributeFor?, ha] at ha'
  cases ha'
  exact ⟨c, hac⟩

/-- A block that occurs is not ruled out by its limit. -/
theorem maxItems_ne_zero_of_mem {m : BlockMap} {os : List Occurrence} {o : Occurrence}
    {b : BlockSchema} (hlimits : BlockMap.KeepsLimits m os) (ho : o ∈ os)
    (hb : m.get? o.blockType = some b) : b.maxItems ≠ some 0 := by
  intro hzero
  have hle := hlimits o.blockType b 0 hb hzero
  have hpos : 0 < os.countP (fun i => i.blockType = o.blockType) :=
    List.countP_pos_iff.2 ⟨o, ho, by simp⟩
  rw [UInt64.toNat_zero] at hle
  omega

/-- One block keeps the limits that leave room for it. -/
theorem keepsLimits_singleton {m : BlockMap} {o : Occurrence} {b : BlockSchema}
    (hb : m.get? o.blockType = some b) (hlimit : b.maxItems ≠ some 0) :
    BlockMap.KeepsLimits m [o] := by
  intro name b' n hb' hn
  by_cases e : o.blockType = name
  · subst e
    cases hb.symm.trans hb'
    have hne : n.toNat ≠ 0 := fun hz => hlimit (by
      rw [hn, UInt64.toNat_inj.1 (hz.trans UInt64.toNat_zero.symm)])
    have hone : [o].countP (fun i => i.blockType = o.blockType) = 1 := by simp
    omega
  · simp [e]

/-- What a block that can occur keeps is relaxed, unless an added attribute shadows the open
rule. -/
theorem KeptBy.relaxedTo {old new : BlockSchema} (h : old.KeptBy new) (hoccur : old.CanOccur)
    (hshadow : ¬old.ShadowedBy new) : old.RelaxedTo new := by
  refine ⟨?_, SchemaChange.isTighter_eq_false_iff.1 h.limit, fun name a ha => ?_,
    fun name a' ha' hlisted => ⟨h.added name a' ha' hlisted, fun r hr c hc => ?_⟩, fun r hr => ?_⟩
  · have hnames := congrArg List.length h.labels
    simpa only [List.length_map] using hnames
  · obtain ⟨a', ha', hk⟩ := h.kept name a ha
    exact ⟨a', ha', hk.within, hk.required⟩
  · -- the value has left the open rule, and only an unshadowed block still accepts it
    cases hsat : a'.constraints.isSatisfiedBy c with
    | true => rfl
    | false => exact absurd (.here c hoccur hlisted hr ha' hc hsat) hshadow
  · obtain ⟨r', hr', hk⟩ := h.openRule r hr
    exact ⟨r', hr', hk.within⟩

theorem keepsLimits_of_harmless {old new : BlockMap} {os : List Occurrence} {path : String}
    (hblocks : ∀ name b, old.get? name = some b → ∃ b', new.get? name = some b' ∧
      SchemaChange.Harmless (b.changes b' (SchemaChange.joinPath path name)))
    (hknown : ∀ o ∈ os, old.contains o.blockType = true) (h : BlockMap.KeepsLimits old os) :
    BlockMap.KeepsLimits new os := by
  refine h.of_relaxed hknown fun name b hb => ?_
  obtain ⟨b', hb', hharmless⟩ := hblocks name b hb
  have hkept := (harmless_changes.1 hharmless).1
  exact ⟨b', hb', SchemaChange.isTighter_eq_false_iff.1 hkept.limit⟩

/-- The induction is on the acceptance of the old block, so every nested block comes with the
acceptance of its own. -/
theorem Accepts.of_harmless {old new : BlockSchema} {o : Occurrence} {path : String}
    (h : old.Accepts o) (hharmless : SchemaChange.Harmless (old.changes new path))
    (hlimit : old.maxItems ≠ some 0) (hshadow : ¬old.ShadowedBy new) : new.Accepts o := by
  induction h generalizing new path with
  | @intro old o hadmits hlimits hknown _ ih =>
      obtain ⟨hkept, hblocks⟩ := harmless_changes.1 hharmless
      have hrelaxed := hkept.relaxedTo (hadmits.canOccur hlimit) hshadow
      refine accepts_iff.2 ⟨hrelaxed.admits hadmits,
        keepsLimits_of_harmless hblocks hknown hlimits, fun i hi => ?_⟩
      obtain ⟨b, hb⟩ := Entries.contains_iff.1 (hknown i hi)
      obtain ⟨b', hb', hharmless'⟩ := hblocks i.blockType b hb
      refine ⟨b', hb', ih i hi b hb hharmless' ?_ fun hs => hshadow ?_⟩
      · exact maxItems_ne_zero_of_mem hlimits hi hb
      · exact .nested (hadmits.canOccur hlimit) hb hb' hs

/-- Values for all required attributes of a block that can occur. -/
theorem CanOccur.exists_attributes {b : BlockSchema} (h : b.CanOccur) :
    ∃ m : SortedMap String Candidate,
      (∀ name ∈ b.requiredAttributes, m.contains name = true) ∧
        ∀ name c, m.get? name = some c →
          ∃ a, b.attributes.get? name = some a ∧ a.constraints.isSatisfiedBy c = true := by
  refine Entries.exists_of_forall_mem fun name hname => ?_
  obtain ⟨a, ha, hr⟩ := mem_requiredAttributes.1 hname
  obtain ⟨c, hc⟩ := h.required name a ha hr
  exact ⟨c, a, ha, hc⟩

/-- A shadowed block can be written so that only the old schema accepts it. -/
theorem ShadowedBy.exists_occurrence {old new : BlockSchema} (h : old.ShadowedBy new)
    (blockType : String) :
    ∃ o : Occurrence, o.blockType = blockType ∧ old.Accepts o ∧ ¬new.Accepts o := by
  induction h generalizing blockType with
  | @here old new name r a c hoccur hlisted hopen hnew haccepted hrefused =>
      obtain ⟨m, hrequired, hsat⟩ := hoccur.exists_attributes
      refine ⟨⟨blockType, old.labels.map (·.name), m.insert name c, []⟩, rfl,
        accepts_iff.2 ⟨⟨by simp, fun n d hd => ?_, fun n hn => ?_⟩, ?_, by simp⟩, fun hnews => ?_⟩
      · rw [Entries.get?_insert] at hd
        split at hd
        next e =>
          cases hd
          exact ⟨r, by rw [attributeFor?, ← e, hlisted, hopen]; rfl, haccepted⟩
        next =>
          obtain ⟨a', ha', hc'⟩ := hsat n d hd
          exact ⟨a', by simp [attributeFor?, ha'], hc'⟩
      · rw [Entries.contains, Entries.get?_insert]
        split
        next => rfl
        next => exact hrequired n hn
      · intro n b k _ _
        simp
      · obtain ⟨a', ha', hc'⟩ := (accepts_iff.1 hnews).1.known name c (by simp)
        rw [attributeFor?, hnew] at ha'
        cases ha'
        simp [hrefused] at hc'
  | @nested old new b b' name hoccur hb hb' hs ih =>
      obtain ⟨m, hrequired, hsat⟩ := hoccur.exists_attributes
      obtain ⟨i, rfl, hold, hnew⟩ := ih name
      refine ⟨⟨blockType, old.labels.map (·.name), m, [i]⟩, rfl,
        accepts_iff.2 ⟨⟨by simp, fun n d hd => ?_, hrequired⟩, ?_, ?_⟩, fun hnews => ?_⟩
      · obtain ⟨a', ha', hc'⟩ := hsat n d hd
        exact ⟨a', by simp [attributeFor?, ha'], hc'⟩
      · exact keepsLimits_singleton hb hs.canOccur.limit
      · simpa using ⟨b, hb, hold⟩
      · obtain ⟨b'', hb'', h⟩ := (accepts_iff.1 hnews).2.2 i (by simp)
        cases hb'.symm.trans hb''
        exact hnew h

end BlockSchema

namespace SchemaTree

/-- A compatible schema accepts every configuration of the old one exactly when it shadows none of
the old blocks. -/
theorem compatible_sound_iff {old new : SchemaTree}
    (h : (DiffReport.compare old new false).isCompatible = true) :
    (∀ os, old.Accepts os → new.Accepts os) ↔ ¬old.ShadowedBy new := by
  have hblocks := DiffReport.isCompatible_compare.1 h
  constructor
  · rintro hsound ⟨name, b, b', hb, hb', hs⟩
    obtain ⟨o, rfl, hold, hnew⟩ := hs.exists_occurrence name
    have haccepts := hsound [o] ⟨BlockSchema.keepsLimits_singleton hb hs.canOccur.limit,
      by simpa using ⟨b, hb, hold⟩⟩
    obtain ⟨b'', hb'', h'⟩ := haccepts.2 o (by simp)
    cases hb'.symm.trans hb''
    exact hnew h'
  · rintro hshadow os ⟨hlimits, haccepts⟩
    refine ⟨BlockSchema.keepsLimits_of_harmless hblocks (fun o ho => ?_) hlimits, fun o ho => ?_⟩
    · obtain ⟨b, hb, -⟩ := haccepts o ho
      exact Entries.contains_iff.2 ⟨b, hb⟩
    · obtain ⟨b, hb, hob⟩ := haccepts o ho
      obtain ⟨b', hb', hharmless⟩ := hblocks o.blockType b hb
      refine ⟨b', hb', hob.of_harmless hharmless ?_ fun hs => hshadow ⟨_, _, _, hb, hb', hs⟩⟩
      exact BlockSchema.maxItems_ne_zero_of_mem hlimits ho hb

/-- Services with settings of any name, all of them strings. -/
def openServices : SchemaTree :=
  empty.withBlock "service" (BlockSchema.bare.withOpenRule (.optional [.literal .string]))

/-- The same services, with constraints of its own for the setting `port`. -/
def portServices (port : ConstraintSet) : SchemaTree :=
  empty.withBlock "service"
    ((BlockSchema.bare.withOpenRule (.optional [.literal .string])).withAttribute "port"
      (.optional port))

theorem block_openServices {name : String} {b : BlockSchema}
    (h : openServices.blocks.get? name = some b) :
    name = "service" ∧ b = BlockSchema.bare.withOpenRule (.optional [.literal .string]) := by
  rw [openServices, withBlock, Entries.get?_insert] at h
  split at h
  next e => exact ⟨e.symm, (Option.some.inj h).symm⟩
  next => simp [empty] at h

/-- Strings that the open rule accepted stay accepted when the listed setting accepts them too. -/
theorem sound_wider_port :
    (DiffReport.compare openServices (portServices [.literal .number, .literal .string])
        false).isCompatible = true ∧
      ∀ os, openServices.Accepts os →
        (portServices [.literal .number, .literal .string]).Accepts os := by
  have hcompatible : (DiffReport.compare openServices
      (portServices [.literal .number, .literal .string]) false).isCompatible = true := by
    decide
  refine ⟨hcompatible, (compatible_sound_iff hcompatible).2 ?_⟩
  rintro ⟨name, b, b', hb, hb', hs⟩
  obtain ⟨rfl, rfl⟩ := block_openServices hb
  cases Option.some.inj hb'
  cases hs with
  | @here _ _ n r a c _ hlisted hopen hnew haccepted hrefused =>
      cases hopen
      rw [BlockSchema.withAttribute, Entries.get?_insert] at hnew
      split at hnew
      next =>
        cases hnew
        rw [← Bool.not_eq_true, ConstraintSet.isSatisfiedBy_iff] at hrefused
        obtain ⟨v, hv, hc⟩ := ConstraintSet.isSatisfiedBy_iff.1 haccepted
        exact hrefused ⟨v, List.mem_cons_of_mem _ hv, hc⟩
      next => simp [BlockSchema.withOpenRule, BlockSchema.bare] at hnew
  | nested _ hnested _ _ => simp [BlockSchema.withOpenRule, BlockSchema.bare] at hnested

/-- A service with a name for its port. -/
def namedPort : Occurrence :=
  ⟨"service", [], Entries.nil.insert "port" (.ofValue (.string "http")), []⟩

theorem port_of_namedPort {name : String} {c : Candidate}
    (h : namedPort.attributes.get? name = some c) :
    name = "port" ∧ c = .ofValue (.string "http") := by
  rw [namedPort, Entries.get?_insert] at h
  split at h
  next e => exact ⟨e.symm, (Option.some.inj h).symm⟩
  next => simp at h

/-- The name is accepted as long as the open rule judges it. The schema that lists numbers for the
setting counts as compatible and refuses it. -/
theorem unsound_number_port :
    (DiffReport.compare openServices (portServices [.literal .number]) false).isCompatible = true ∧
      openServices.Accepts [namedPort] ∧ ¬(portServices [.literal .number]).Accepts [namedPort] := by
  refine ⟨by decide, ⟨?_, ?_⟩, ?_⟩
  · exact BlockSchema.keepsLimits_singleton (b := BlockSchema.bare.withOpenRule
      (.optional [.literal .string])) rfl (by simp [BlockSchema.withOpenRule, BlockSchema.bare])
  · simp only [List.mem_singleton, forall_eq]
    refine ⟨_, rfl, BlockSchema.accepts_iff.2 ⟨⟨rfl, fun name c hc => ?_, by decide⟩, ?_, ?_⟩⟩
    · obtain ⟨rfl, rfl⟩ := port_of_namedPort hc
      exact ⟨_, rfl, by decide⟩
    · exact fun name b n hb hn => Nat.zero_le _
    · simp [namedPort]
  · rintro ⟨-, h⟩
    obtain ⟨b, hb, hnew⟩ := h namedPort (List.mem_singleton_self _)
    cases Option.some.inj hb
    obtain ⟨a, ha, hc⟩ := (BlockSchema.accepts_iff.1 hnew).1.known "port"
      (.ofValue (.string "http")) (Entries.get?_insert_self _ _ _)
    cases Option.some.inj ha
    revert hc
    decide

end SchemaTree

end ConfigSchema
