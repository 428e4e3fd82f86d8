import ConfigSchema.Proofs.Json.Constraint
import ConfigSchema.Schema.Form

/-!
References, attributes, blocks and trees survive their JSON form. What is left out of a document is
what the reader supplies again. Nothing that may be left out is written as null, so an absent member
and one that is there cannot be taken for each other; only a default value may be null.
-/

namespace ConfigSchema

open Document (fieldsOf memberIf)

theorem AddressStep.recovers (s : Spelling) (step : AddressStep) :
    Recovers (ofJsonIn? s) document step := by
  cases step with
  | fixed segment =>
      simp [Recovers, document, ofJsonIn?, Document.value_object, Json.fields?,
        Entries.required?, Json.string?]
  | label index =>
      simp [Recovers, document, ofJsonIn?, Document.value_object, Json.fields?,
        Entries.required?]
  | attributeValue name isOptional =>
      simp [Recovers, document, ofJsonIn?, Document.value_object, Json.fields?,
        Entries.required?, Entries.optional?, Json.string?, Json.bool?]
  | attributeName =>
      simp [Recovers, document, ofJsonIn?, Document.value_object, Json.fields?,
        Entries.required?]

theorem Address.recovers (s : Spelling) (address : Address) :
    Recovers (ofJsonIn? s) document address :=
  recovers_list fun step _ => step.recovers s

theorem TypeRule.recovers (s : Spelling) (rule : TypeRule) :
    Recovers (ofJsonIn? s) document rule := by
  cases rule with
  | explicit t =>
      have ht : ValueType.ofJsonIn? .free t.document.value = some t := t.recovers .free
      simp [Recovers, document, ofJsonIn?, Document.value_object, Json.fields?,
        Entries.required?, ht]
  | declaredBy name =>
      simp [Recovers, document, ofJsonIn?, Document.value_object, Json.fields?,
        Entries.required?, Json.string?]
  | inferredFrom name =>
      have hname : (fieldsOf (("rule", .string "inferred") ::
          memberIf "attribute" .string name)).nullable? "attribute" Json.string? = some name :=
        nullable?_of_recovers .string (by simp) (fun _ => Json.noConfusion) fun _ => rfl
      simp [Recovers, document, ofJsonIn?, Document.value_object, Json.fields?,
        Entries.required?, hname]

namespace Reference

def members (r : Reference) : List (String × Document) :=
  ("scope", r.scope.document) :: memberIf "address" Address.document r.address ++
    if r.rules.isEmpty then [] else [("types", .array (r.rules.map (·.document)))]

theorem document_eq (r : Reference) : r.document = .object r.members := rfl

theorem recovers (s : Spelling) (r : Reference) : Recovers (ofJsonIn? s) document r := by
  have hscope : (fieldsOf r.members).required? "scope" Scope.ofJson? = some r.scope :=
    required?_of_recovers Scope.document (by unfold members; split <;> simp) r.scope.recovers
  have haddress : (fieldsOf r.members).nullable? "address" (Address.ofJsonIn? s) =
      some r.address :=
    nullable?_of_recovers Address.document (by unfold members; split <;> simp)
      (fun _ => Json.noConfusion) fun address => address.recovers s
  -- without rules the field is left out, and the reader supplies the empty list
  have hrules : (fieldsOf r.members).optional? "types" [] (Json.listOf? (TypeRule.ofJsonIn? s)) =
      some r.rules :=
    optional?_of_recovers (p := r.rules.isEmpty) (fun rules => .array (rules.map TypeRule.document))
      (by unfold members; split <;> simp [*]) List.isEmpty_iff.1
      (recovers_list fun rule _ => rule.recovers s)
  rw [Recovers, document_eq, Document.value_object, ofJsonIn?]
  simp [Json.fields?, hscope, haddress, hrules]

end Reference

theorem Description.recovers (s : Spelling) (d : Description) :
    Recovers (ofJsonIn? s) document d := by
  cases d with
  | plainText text =>
      simp [Recovers, document, ofJsonIn?, Document.value_object, Json.fields?,
        Entries.required?, Json.string?]
  | markdown text =>
      simp [Recovers, document, ofJsonIn?, Document.value_object, Json.fields?,
        Entries.required?, Json.string?]

theorem Description.value_document_ne_null (d : Description) : d.document.value ≠ .null := by
  cases d <;> nofun

theorem LabelSchema.recovers (s : Spelling) (l : LabelSchema) :
    Recovers (ofJsonIn? s) document l := by
  have hdescription : Description.ofJsonIn? s l.description.document.value =
      some l.description := l.description.recovers s
  simp [Recovers, document, ofJsonIn?, Document.value_object, Json.fields?, Entries.required?,
    Entries.optional?, Json.string?, Json.bool?, hdescription]

/-- A default value is read as it stands, even if it is null. -/
theorem Presence.recovers (s : Spelling) (p : Presence) : Recovers (ofJsonIn? s) document p := by
  cases p with
  | required => rfl
  | optional => rfl
  | defaulted j =>
      rw [Recovers, document, Document.value_tagged, ofJsonIn?, if_pos rfl, Json.value_document]

namespace AttributeSchema

def members (a : AttributeSchema) : List (String × Document) :=
  [("constraints", a.constraints.document), ("presence", a.presence.document),
    ("is_dep_key", .bool a.isDependencyKey)] ++
    memberIf "reference" Reference.document a.reference ++
    memberIf "description" Description.document a.description

theorem document_eq (a : AttributeSchema) : a.document = .object a.members := rfl

theorem recovers (s : Spelling) (a : AttributeSchema) : Recovers (ofJsonIn? s) document a := by
  have hconstraints : (fieldsOf a.members).required? "constraints" (ConstraintSet.ofJsonIn? s) =
      some a.constraints :=
    required?_of_recovers ConstraintSet.document (by simp [members])
      (Constraint.recovers_set s fun v _ => v.recovers s)
  have hpresence : (fieldsOf a.members).required? "presence" (Presence.ofJsonIn? s) =
      some a.presence :=
    required?_of_recovers Presence.document (by simp [members]) (a.presence.recovers s)
  -- the flag is always written, so what the reader would supply never counts
  have hkey : (fieldsOf a.members).optional? "is_dep_key" false Json.bool? =
      some a.isDependencyKey :=
    optional?_of_recovers (p := False) .bool (by simp [members]) False.elim rfl
  have hreference : (fieldsOf a.members).nullable? "reference" (Reference.ofJsonIn? s) =
      some a.reference :=
    nullable?_of_recovers Reference.document (by simp [members]) (fun _ => Json.noConfusion)
      fun r => r.recovers s
  have hdescription : (fieldsOf a.members).nullable? "description" (Description.ofJsonIn? s) =
      some a.description :=
    nullable?_of_recovers Description.document (by simp [members])
      Description.value_document_ne_null fun d => d.recovers s
  rw [Recovers, document_eq, Document.value_object, ofJsonIn?]
  simp [Json.fields?, hconstraints, hpresence, hkey, hreference, hdescription]

end AttributeSchema

namespace BlockSchema

theorem blockDocuments_eq {lo : Option String} (bs : Entries String BlockSchema lo) :
    blockDocuments bs = bs.documentsOf document := by
  induction bs with
  | nil => rfl
  | cons name above b rest ih => rw [blockDocuments, ih]; rfl

theorem blocksOf?_eq_mapM? (s : Spelling) {lo : Option String} (fs : Entries String Json lo) :
    blocksOf? s fs = fs.mapM? (ofJsonIn? s) := by
  induction fs with
  | nil => rfl
  | cons name above j rest ih =>
      rw [blocksOf?, Entries.mapM?, ih]
      cases ofJsonIn? s j <;> cases rest.mapM? (ofJsonIn? s) <;> rfl

theorem recovers_blocks (s : Spelling) {bs : BlockMap}
    (h : ∀ name b, bs.get? name = some b → Recovers (ofJsonIn? s) document b) :
    Recovers (blockMapIn? s) (fun bs => .object (blockDocuments bs)) bs := by
  rw [Recovers, blockDocuments_eq, Document.value_object_documentsOf, blockMapIn?,
    blocksOf?_eq_mapM?]
  exact mapM?_of_recovers h

def allMembers (b : BlockSchema) : List (String × Document) :=
  members b.labels b.attributes b.openRule (blockDocuments b.blocks) b.maxItems b.reference
    b.description

theorem document_eq (b : BlockSchema) : b.document = .object b.allMembers := by
  cases b
  rfl

/-- The fields of a block are read as they were written, once its nested blocks are. -/
theorem ofFieldsIn?_allMembers (s : Spelling) (b : BlockSchema) :
    ofFieldsIn? s (fieldsOf b.allMembers) b.blocks = some b := by
  have hlabels : (fieldsOf b.allMembers).optional? "labels" []
      (Json.listOf? (LabelSchema.ofJsonIn? s)) = some b.labels :=
    optional?_of_recovers (p := b.labels.isEmpty) (fun ls => .array (ls.map LabelSchema.document))
      (by unfold allMembers members; split <;> simp [*]) List.isEmpty_iff.1
      (recovers_list fun l _ => l.recovers s)
  have hattributes : (fieldsOf b.allMembers).optional? "attributes" .nil
      (Json.mapOf? (AttributeSchema.ofJsonIn? s)) = some b.attributes :=
    optional?_of_recovers (p := False)
      (fun as : SortedMap String AttributeSchema => .object (as.documentsOf (·.document)))
      (by unfold allMembers members; split <;> simp) False.elim
      (recovers_map fun _ a _ => a.recovers s)
  have hopen : (fieldsOf b.allMembers).nullable? "any_attribute"
      (AttributeSchema.ofJsonIn? s) = some b.openRule :=
    nullable?_of_recovers AttributeSchema.document
      (by unfold allMembers members; split <;> simp) (fun _ => Json.noConfusion)
      fun a => a.recovers s
  have hlimit : (fieldsOf b.allMembers).nullable? "max_items" Json.word? = some b.maxItems :=
    nullable?_of_recovers Document.ofWord (by unfold allMembers members; split <;> simp)
      (fun _ => Json.noConfusion) Json.word?_ofWord
  have hreference : (fieldsOf b.allMembers).nullable? "reference" (Reference.ofJsonIn? s) =
      some b.reference :=
    nullable?_of_recovers Reference.document (by unfold allMembers members; split <;> simp)
      (fun _ => Json.noConfusion) fun r => r.recovers s
  have hdescription : (fieldsOf b.allMembers).nullable? "description"
      (Description.ofJsonIn? s) = some b.description :=
    nullable?_of_recovers Description.document (by unfold allMembers members; split <;> simp)
      Description.value_document_ne_null fun d => d.recovers s
  have hfields : BlockSchema.mk b.labels b.attributes b.openRule b.blocks b.maxItems b.reference
      b.description = b := by
    cases b
    rfl
  simp [ofFieldsIn?, hlabels, hattributes, hopen, hlimit, hreference, hdescription, hfields]

theorem recovers (s : Spelling) (b : BlockSchema) : Recovers (ofJsonIn? s) document b := by
  induction b using BlockSchema.induct with
  | block b ih =>
      have hblocks : blocksIn? s (fieldsOf b.allMembers) = some b.blocks := by
        rw [blocksIn?_eq]
        exact optional?_of_recovers (p := False) (fun bs => .object (blockDocuments bs))
          (by unfold allMembers members; split <;> simp) False.elim (recovers_blocks s ih)
      rw [Recovers, document_eq, Document.value_object, ofJsonIn?, hblocks, Option.bind_some]
      exact ofFieldsIn?_allMembers s b

end BlockSchema

theorem SchemaTree.recovers (t : SchemaTree) : Recovers ofJson? document t := by
  have hblocks : (fieldsOf [("blocks", .object (BlockSchema.blockDocuments t.blocks))]).required?
      "blocks" (BlockSchema.blockMapIn? .named) = some t.blocks :=
    required?_of_recovers (fun bs => .object (BlockSchema.blockDocuments bs)) (by simp)
      (BlockSchema.recovers_blocks .named fun _ b _ => b.recovers .named)
  rw [Recovers, document, Document.value_object, ofJson?]
  simp [Json.fields?, hblocks]

end ConfigSchema
