import ConfigSchema.Proofs.Constraint.Nesting
import ConfigSchema.Proofs.Schema.Paths
import ConfigSchema.Schema.Defect

/-!
Which trees are valid. What a schema must not have is said of each of its elements: of the attributes
and references of a block, wherever the block is nested. Main statement: validation accepts exactly
the trees of which every block is well formed, and its error names an element that is not.
-/

namespace ConfigSchema

namespace BlockSchema

/-- An attribute can be given in the block: it is listed, or there is an open rule. -/
def Declares (b : BlockSchema) (name : String) : Prop :=
  (∃ a, b.attributes.get? name = some a) ∨ ∃ a, b.openRule = some a

theorem knowsAttribute_iff {b : BlockSchema} {name : String} :
    b.knowsAttribute name = true ↔ b.Declares name := by
  rw [knowsAttribute, Bool.or_eq_true, Entries.contains_iff, Option.isSome_iff_exists]
  rfl

end BlockSchema

/-- A reference of a block, or of one of its attributes, can be resolved as far as the schema
decides. Only the reference of an open rule may use the name of the attribute. -/
structure Reference.FitsIn (r : Reference) (b : BlockSchema) (isOpen : Bool) : Prop where
  mandatory : ∀ address, r.address = some address →
    ∃ step ∈ address, ∀ name, step ≠ .attributeValue name true
  labels : ∀ address, r.address = some address →
    ∀ i, .label i ∈ address → i.toNat < b.labels.length
  values : ∀ address, r.address = some address →
    ∀ name isOptional, .attributeValue name isOptional ∈ address → b.Declares name
  attributeName : ∀ address, r.address = some address → .attributeName ∈ address → isOpen = true
  sources : ∀ rule ∈ r.rules, ∀ name, rule.source? = some name → b.Declares name

/-- The block has no defect of its own. -/
structure BlockSchema.WellFormed (b : BlockSchema) : Prop where
  listedSets : ∀ name a, b.attributes.get? name = some a →
    ∀ set : ConstraintSet, set.NestedIn a.constraints → set ≠ []
  openSets : ∀ a, b.openRule = some a →
    ∀ set : ConstraintSet, set.NestedIn a.constraints → set ≠ []
  openRule : ∀ a, b.openRule = some a → a.isDependencyKey = false
  reference : ∀ r, b.reference = some r → r.FitsIn b false
  listedReferences : ∀ name a r, b.attributes.get? name = some a → a.reference = some r →
    r.FitsIn b false
  openReference : ∀ a r, b.openRule = some a → a.reference = some r → r.FitsIn b true

/-- Every block of the tree, at any depth, is well formed. -/
def SchemaTree.WellFormed (t : SchemaTree) : Prop :=
  ∀ names b, t.blockAt? names = some b → b.WellFormed

namespace BlockSchema

/-- The attribute schemas of the block at a path, each with its own path and whether it is the open
rule. -/
inductive HasAttribute (b : BlockSchema) (path : String) :
    String → Bool → AttributeSchema → Prop
  | listed {name : String} {a : AttributeSchema} : b.attributes.get? name = some a →
    HasAttribute b path (path ++ "." ++ name) false a
  | openRule {a : AttributeSchema} : b.openRule = some a →
    HasAttribute b path (path ++ ".*") true a

/-- The references of the block at a path, each with its own path and whether it belongs to the open
rule. -/
inductive HasReference (b : BlockSchema) (path : String) : String → Bool → Reference → Prop
  | block {r : Reference} : b.reference = some r →
    HasReference b path (path ++ "#reference") false r
  | ofAttribute {place : String} {isOpen : Bool} {a : AttributeSchema} {r : Reference} :
    b.HasAttribute path place isOpen a → a.reference = some r → HasReference b path place isOpen r

end BlockSchema

/-- What an error says about a reference with its path. -/
inductive Reference.HasDefect (r : Reference) (b : BlockSchema) (place : String) (isOpen : Bool) :
    SchemaError → Prop
  | emptyAddress {address : Address} : r.address = some address →
    (∀ step ∈ address, ∃ name, step = .attributeValue name true) →
    HasDefect r b place isOpen (.emptyAddress place)
  | labelOutOfRange {address : Address} {i : UInt64} : r.address = some address →
    .label i ∈ address → b.labels.length ≤ i.toNat →
    HasDefect r b place isOpen (.labelOutOfRange place i b.labels.length)
  | unknownAddressAttribute {address : Address} {name : String} {isOptional : Bool} :
    r.address = some address → .attributeValue name isOptional ∈ address → ¬b.Declares name →
    HasDefect r b place isOpen (.unknownAddressAttribute place name)
  | misplacedAttributeName {address : Address} : r.address = some address →
    .attributeName ∈ address → isOpen = false →
    HasDefect r b place isOpen (.misplacedAttributeName place)
  | unknownTypeSource {rule : TypeRule} {name : String} : rule ∈ r.rules →
    rule.source? = some name → ¬b.Declares name →
    HasDefect r b place isOpen (.unknownTypeSource place name)

/-- What an error says about the block at a path. -/
inductive BlockSchema.HasDefect (b : BlockSchema) (path : String) : SchemaError → Prop
  | emptyConstraints {place : String} {isOpen : Bool} {a : AttributeSchema} :
    b.HasAttribute path place isOpen a → ConstraintSet.NestedIn [] a.constraints →
    HasDefect b path (.emptyConstraints place)
  | dependencyKeyOnOpenRule {a : AttributeSchema} : b.openRule = some a →
    a.isDependencyKey = true → HasDefect b path (.dependencyKeyOnOpenRule (path ++ ".*"))
  | reference {place : String} {isOpen : Bool} {r : Reference} {err : SchemaError} :
    b.HasReference path place isOpen r → r.HasDefect b place isOpen err → HasDefect b path err

/-- Some block of the tree has the defect, and the error names it by its path. -/
def SchemaTree.HasDefect (t : SchemaTree) (err : SchemaError) : Prop :=
  ∃ names b, t.blockAt? names = some b ∧ b.HasDefect (RefPath.mk names).text err

namespace AddressStep

theorem isMandatory_eq_false_iff {step : AddressStep} :
    step.isMandatory = false ↔ ∃ name, step = .attributeValue name true := by
  cases step with
  | attributeValue name isOptional => cases isOptional <;> simp [isMandatory]
  | fixed | label | attributeName => simp [isMandatory]

end AddressStep

namespace BlockSchema

variable {b : BlockSchema} {path place : String} {isOpen : Bool} {err : SchemaError}

theorem mem_stepDefects {step : AddressStep} :
    err ∈ b.stepDefects place isOpen step ↔
      (∃ i, step = .label i ∧ b.labels.length ≤ i.toNat ∧
        err = .labelOutOfRange place i b.labels.length) ∨
      (∃ name isOptional, step = .attributeValue name isOptional ∧ ¬b.Declares name ∧
        err = .unknownAddressAttribute place name) ∨
      (step = .attributeName ∧ isOpen = false ∧ err = .misplacedAttributeName place) := by
  cases step with
  | fixed segment => simp [stepDefects]
  | label i => simp [stepDefects]
  | attributeValue name isOptional =>
      simp only [stepDefects, ← knowsAttribute_iff]
      cases h : b.knowsAttribute name <;> simp [h]
  | attributeName => cases isOpen <;> simp [stepDefects]

theorem mem_addressDefects {address : Address} :
    err ∈ b.addressDefects place isOpen address ↔
      ((∀ step ∈ address, ∃ name, step = .attributeValue name true) ∧
        err = .emptyAddress place) ∨
      ∃ step ∈ address, err ∈ b.stepDefects place isOpen step := by
  rw [addressDefects, List.mem_append, List.mem_flatMap]
  refine or_congr_left ?_
  simp only [← AddressStep.isMandatory_eq_false_iff]
  cases h : address.any (·.isMandatory) with
  | false => simpa using fun _ => List.any_eq_false.1 h
  | true =>
      obtain ⟨step, hstep, hmandatory⟩ := List.any_eq_true.1 h
      simpa using fun hall => absurd (hall step hstep) (by simp [hmandatory])

theorem mem_ruleDefects {rule : TypeRule} :
    err ∈ b.ruleDefects place rule ↔ ∃ name, rule.source? = some name ∧ ¬b.Declares name ∧
      err = .unknownTypeSource place name := by
  rw [ruleDefects]
  cases rule.source? with
  | none => simp
  | some name =>
      simp only [← knowsAttribute_iff]
      cases h : b.knowsAttribute name <;> simp [h]

theorem mem_referenceDefects {r : Reference} :
    err ∈ b.referenceDefects place isOpen r ↔ r.HasDefect b place isOpen err := by
  rw [referenceDefects, List.mem_append, List.mem_flatMap]
  constructor
  · rintro (h | ⟨rule, hrule, h⟩)
    · cases hr : r.address with
      | none => simp [hr] at h
      | some address =>
          rw [hr] at h
          rcases mem_addressDefects.1 h with ⟨hall, rfl⟩ | ⟨step, hstep, h⟩
          · exact .emptyAddress hr hall
          · rcases mem_stepDefects.1 h with ⟨i, rfl, hi, rfl⟩ | ⟨name, isOptional, rfl, hb, rfl⟩ |
              ⟨rfl, ho, rfl⟩
            · exact .labelOutOfRange hr hstep hi
            · exact .unknownAddressAttribute hr hstep hb
            · exact .misplacedAttributeName hr hstep ho
    · obtain ⟨name, hname, hb, rfl⟩ := mem_ruleDefects.1 h
      exact .unknownTypeSource hrule hname hb
  · intro h
    -- the defects of an address come first, those of the rules after them
    cases h with
    | emptyAddress hr hall =>
        rw [hr]
        exact .inl (mem_addressDefects.2 (.inl ⟨hall, rfl⟩))
    | labelOutOfRange hr hstep hi =>
        rw [hr]
        exact .inl (mem_addressDefects.2 (.inr ⟨_, hstep, mem_stepDefects.2
          (.inl ⟨_, rfl, hi, rfl⟩)⟩))
    | unknownAddressAttribute hr hstep hb =>
        rw [hr]
        exact .inl (mem_addressDefects.2 (.inr ⟨_, hstep, mem_stepDefects.2
          (.inr (.inl ⟨_, _, rfl, hb, rfl⟩))⟩))
    | misplacedAttributeName hr hstep ho =>
        rw [hr]
        exact .inl (mem_addressDefects.2 (.inr ⟨_, hstep, mem_stepDefects.2
          (.inr (.inr ⟨rfl, ho, rfl⟩))⟩))
    | unknownTypeSource hrule hname hb =>
        exact .inr ⟨_, hrule, mem_ruleDefects.2 ⟨_, hname, hb, rfl⟩⟩

theorem any_isEmpty_allSets {set : ConstraintSet} :
    set.allSets.any List.isEmpty = true ↔ ConstraintSet.NestedIn [] set := by
  rw [← ConstraintSet.mem_allSets_iff, List.any_eq_true]
  constructor
  · rintro ⟨s, hs, hempty⟩
    rwa [List.isEmpty_iff.1 hempty] at hs
  · exact fun h => ⟨[], h, rfl⟩

theorem mem_attributeDefects {a : AttributeSchema} :
    err ∈ b.attributeDefects place isOpen a ↔
      (ConstraintSet.NestedIn [] a.constraints ∧ err = .emptyConstraints place) ∨
        ∃ r, a.reference = some r ∧ r.HasDefect b place isOpen err := by
  rw [attributeDefects, List.mem_append, ← any_isEmpty_allSets]
  refine or_congr ?_ ?_
  · split
    next h => simp [h]
    next h => simp [h]
  · cases a.reference with
    | none => simp
    | some r => simp [mem_referenceDefects]

theorem mem_ownDefects_iff : err ∈ b.ownDefects path ↔
    (∃ r, b.reference = some r ∧ r.HasDefect b (path ++ "#reference") false err) ∨
      (∃ a, b.openRule = some a ∧ a.isDependencyKey = true ∧
        err = .dependencyKeyOnOpenRule (path ++ ".*")) ∨
      ∃ place isOpen a, b.HasAttribute path place isOpen a ∧
        err ∈ b.attributeDefects place isOpen a := by
  rw [ownDefects, List.mem_append, List.mem_append, List.mem_flatMap]
  constructor
  · rintro ((h | ⟨⟨name, a⟩, ha, h⟩) | h)
    · cases hr : b.reference with
      | none => simp [hr] at h
      | some r =>
          rw [hr] at h
          exact .inl ⟨r, rfl, mem_referenceDefects.1 h⟩
    · exact .inr (.inr ⟨_, _, a, .listed (Entries.get?_eq_some_iff.2 ha), h⟩)
    · cases ha : b.openRule with
      | none => simp [ha] at h
      | some a =>
          rw [ha] at h
          rcases List.mem_append.1 h with h | h
          · cases hkey : a.isDependencyKey with
            | false => simp [hkey] at h
            | true =>
                rw [hkey, if_pos rfl, List.mem_singleton] at h
                exact .inr (.inl ⟨a, rfl, hkey, h⟩)
          · exact .inr (.inr ⟨_, _, a, .openRule ha, h⟩)
  · rintro (⟨r, hr, h⟩ | ⟨a, ha, hkey, rfl⟩ | ⟨place, isOpen, a, hattribute, h⟩)
    · rw [hr]
      exact .inl (.inl (mem_referenceDefects.2 h))
    · rw [ha]
      exact .inr (List.mem_append_left _ (by simp [hkey]))
    · cases hattribute with
      | listed ha => exact .inl (.inr ⟨_, Entries.get?_eq_some_iff.1 ha, h⟩)
      | openRule ha =>
          rw [ha]
          exact .inr (List.mem_append_right _ h)

theorem mem_ownDefects : err ∈ b.ownDefects path ↔ b.HasDefect path err := by
  rw [mem_ownDefects_iff]
  constructor
  · rintro (⟨r, hr, h⟩ | ⟨a, ha, hkey, rfl⟩ | ⟨place, isOpen, a, hattribute, h⟩)
    · exact .reference (.block hr) h
    · exact .dependencyKeyOnOpenRule ha hkey
    · rcases mem_attributeDefects.1 h with ⟨hempty, rfl⟩ | ⟨r, hr, h⟩
      · exact .emptyConstraints hattribute hempty
      · exact .reference (.ofAttribute hattribute hr) h
  · intro h
    cases h with
    | emptyConstraints hattribute hempty =>
        exact .inr (.inr ⟨_, _, _, hattribute, mem_attributeDefects.2 (.inl ⟨hempty, rfl⟩)⟩)
    | dependencyKeyOnOpenRule ha hkey => exact .inr (.inl ⟨_, ha, hkey, rfl⟩)
    | reference hreference h =>
        cases hreference with
        | block hr => exact .inl ⟨_, hr, h⟩
        | ofAttribute hattribute hr =>
            exact .inr (.inr ⟨_, _, _, hattribute, mem_attributeDefects.2 (.inr ⟨_, hr, h⟩)⟩)

theorem defects_eq (b : BlockSchema) (path : String) :
    b.defects path = b.ownDefects path ++ nestedDefects b.blocks (path ++ ".") := by
  cases b
  rfl

theorem mem_nestedDefects {lo : Option String} {bs : Entries String BlockSchema lo}
    {start : String} : err ∈ nestedDefects bs start ↔
      ∃ name b, bs.get? name = some b ∧ err ∈ b.defects (start ++ name) := by
  induction bs with
  | nil => simp [nestedDefects]
  | cons name above b rest ih =>
      rw [nestedDefects, List.mem_append, ih, Entries.exists_get?_cons]

/-- The defects of a map are those of the blocks nested in it, when this holds below each of its
blocks. -/
theorem mem_nestedDefects_of {m : BlockMap} {start : String}
    (h : ∀ name b, m.get? name = some b → ∀ start, err ∈ nestedDefects b.blocks start ↔
      ∃ names n, BlockMap.at? b.blocks names = some n ∧
        n.HasDefect (start ++ (RefPath.mk names).text) err) :
    err ∈ nestedDefects m start ↔ ∃ names n, BlockMap.at? m names = some n ∧
      n.HasDefect (start ++ (RefPath.mk names).text) err := by
  rw [mem_nestedDefects, BlockMap.exists_at?_iff]
  refine exists_congr fun name => exists_congr fun b => and_congr_right fun hb => ?_
  rw [defects_eq, List.mem_append, mem_ownDefects, h name b hb, RefPath.text_singleton]
  refine or_congr_right (exists_congr fun names => exists_congr fun n =>
    and_congr_right fun hn => ?_)
  rw [RefPath.text_cons (BlockMap.ne_nil_of_at? hn)]
  simp only [String.append_assoc]

/-- The induction is on the block, so the blocks at all depths are reached. -/
theorem mem_nestedDefects_blocks (b : BlockSchema) (start : String) :
    err ∈ nestedDefects b.blocks start ↔ ∃ names n, BlockMap.at? b.blocks names = some n ∧
      n.HasDefect (start ++ (RefPath.mk names).text) err := by
  induction b using induct generalizing start with
  | block b ih => exact mem_nestedDefects_of ih

theorem fitsIn_iff {r : Reference} :
    r.FitsIn b isOpen ↔ ∀ err, ¬r.HasDefect b place isOpen err := by
  constructor
  · intro h err hdefect
    cases hdefect with
    | emptyAddress hr hall =>
        obtain ⟨step, hstep, hne⟩ := h.mandatory _ hr
        obtain ⟨name, e⟩ := hall step hstep
        exact hne name e
    | labelOutOfRange hr hstep hi =>
        have hlt := h.labels _ hr _ hstep
        omega
    | unknownAddressAttribute hr hstep hb => exact hb (h.values _ hr _ _ hstep)
    | misplacedAttributeName hr hstep ho => cases ho.symm.trans (h.attributeName _ hr hstep)
    | unknownTypeSource hrule hname hb => exact hb (h.sources _ hrule _ hname)
  · intro h
    refine ⟨fun address hr => ?_, fun address hr i hstep => ?_, fun address hr name o hstep => ?_,
      fun address hr hstep => ?_, fun rule hrule name hname => ?_⟩
    · refine Classical.byContradiction fun hnone => h _ (.emptyAddress hr fun step hstep => ?_)
      exact Classical.byContradiction fun hne => hnone ⟨step, hstep, fun name e => hne ⟨name, e⟩⟩
    · exact Nat.lt_of_not_le fun hi => h _ (.labelOutOfRange hr hstep hi)
    · exact Classical.byContradiction fun hb => h _ (.unknownAddressAttribute hr hstep hb)
    · cases ho : isOpen with
      | true => rfl
      | false => exact absurd (.misplacedAttributeName hr hstep ho) (h _)
    · exact Classical.byContradiction fun hb => h _ (.unknownTypeSource hrule hname hb)

/-- A block is well formed when no error says anything about it, at whatever path it is. -/
theorem wellFormed_iff : b.WellFormed ↔ ∀ err, ¬b.HasDefect path err := by
  constructor
  · intro h err hdefect
    cases hdefect with
    | emptyConstraints hattribute hempty =>
        cases hattribute with
        | listed ha => exact h.listedSets _ _ ha [] hempty rfl
        | openRule ha => exact h.openSets _ ha [] hempty rfl
    | dependencyKeyOnOpenRule ha hkey => cases hkey.symm.trans (h.openRule _ ha)
    | reference hreference hdefect =>
        cases hreference with
        | block hr => exact fitsIn_iff.1 (h.reference _ hr) _ hdefect
        | ofAttribute hattribute hr =>
            cases hattribute with
            | listed ha => exact fitsIn_iff.1 (h.listedReferences _ _ _ ha hr) _ hdefect
            | openRule ha => exact fitsIn_iff.1 (h.openReference _ _ ha hr) _ hdefect
  · intro h
    refine ⟨fun name a ha set hset hnil => ?_, fun a ha set hset hnil => ?_, fun a ha => ?_,
      fun r hr => ?_, fun name a r ha hr => ?_, fun a r ha hr => ?_⟩
    · subst hnil
      exact h _ (.emptyConstraints (.listed ha) hset)
    · subst hnil
      exact h _ (.emptyConstraints (.openRule ha) hset)
    · exact Bool.eq_false_iff.2 fun hkey => h _ (.dependencyKeyOnOpenRule ha hkey)
    · exact fitsIn_iff.2 fun err hdefect => h err (.reference (.block hr) hdefect)
    · exact fitsIn_iff.2 fun err hdefect =>
        h err (.reference (.ofAttribute (.listed ha) hr) hdefect)
    · exact fitsIn_iff.2 fun err hdefect =>
        h err (.reference (.ofAttribute (.openRule ha) hr) hdefect)

end BlockSchema

namespace SchemaTree

theorem mem_defects {t : SchemaTree} {err : SchemaError} :
    err ∈ t.defects ↔ t.HasDefect err := by
  have h : err ∈ t.defects ↔ ∃ names b, t.blockAt? names = some b ∧
      b.HasDefect ("" ++ (RefPath.mk names).text) err :=
    BlockSchema.mem_nestedDefects_of fun _ b _ => b.mem_nestedDefects_blocks
  simp only [String.empty_append] at h
  exact h

theorem wellFormed_iff {t : SchemaTree} : t.WellFormed ↔ ∀ err, ¬t.HasDefect err := by
  simp only [WellFormed, HasDefect, not_exists, not_and]
  constructor
  · exact fun h err names b hb => BlockSchema.wellFormed_iff.1 (h names b hb) err
  · exact fun h names b hb => BlockSchema.wellFormed_iff.2 fun err => h err names b hb

theorem validate_eq_ok_iff {t : SchemaTree} : t.validate = .ok () ↔ t.defects = [] := by
  unfold validate
  cases t.defects <;> simp

theorem wellFormed_of_validate {t : SchemaTree} (h : t.validate = .ok ()) : t.WellFormed := by
  rw [wellFormed_iff]
  intro err herr
  rw [← mem_defects, validate_eq_ok_iff.1 h] at herr
  cases herr

/-- A tree is valid exactly when all of its blocks are well formed, and otherwise the error names an
element of it and what is wrong with that. -/
theorem validate_iff (t : SchemaTree) :
    (t.validate = .ok () ↔ t.WellFormed) ∧ ∀ err, t.validate = .error err → t.HasDefect err := by
  simp only [wellFormed_iff, ← mem_defects, validate]
  cases t.defects with
  | nil => simp
  | cons first others =>
      refine ⟨⟨nofun, fun h => absurd List.mem_cons_self (h first)⟩, fun err h => ?_⟩
      cases h
      exact List.mem_cons_self

example : (empty.withBlock "resource" (BlockSchema.bare.withBlock "lifecycle"
    (BlockSchema.bare.withAttribute "ignore" (.optional [.uniform []])))).validate =
      .error (.emptyConstraints "resource.lifecycle.ignore") := by rfl

end SchemaTree

end ConfigSchema
