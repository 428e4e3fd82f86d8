import ConfigSchema.Proofs.Json.Members

/-!
Constraints and references survive their JSON form, in both spellings. The readers of trees go down
the JSON value, so each of them is first brought to the readers of lists and maps.
-/

namespace ConfigSchema

namespace Json

theorem documents_eq_map (js : List Json) : documents js = js.map document := by
  induction js with
  | nil => rfl
  | cons j js ih => rw [documents, ih, List.map_cons]

theorem fieldDocuments_eq {lo : Option String} (fs : Entries String Json lo) :
    fieldDocuments fs = fs.documentsOf document := by
  induction fs with
  | nil => rfl
  | cons name above j rest ih => rw [fieldDocuments, ih]; rfl

/-- The document of a value stands for that value. -/
theorem value_document (j : Json) : j.document.value = j := by
  induction j using Json.induct with
  | null => rfl
  | bool b => rfl
  | number n => rfl
  | string s => rfl
  | array js ih =>
      have hitems : js.map (Document.value ∘ document) = js :=
        (List.map_congr_left fun j hj => ih j hj).trans (List.map_id js)
      rw [document, Document.value, documents_eq_map, Document.values_eq_map, List.map_map, hitems]
  | object fs ih =>
      rw [document, fieldDocuments_eq, Document.value_object_documentsOf]
      congr 1
      refine Entries.ext_get? fun name => ?_
      rw [Entries.get?_map]
      cases hj : fs.get? name with
      | none => rfl
      | some j => exact congrArg some (ih name j hj)

@[simp] theorem word?_ofWord (n : UInt64) : (ofWord n).word? = some n := by
  simp [ofWord, word?, WordInt.ofWord]

end Json

namespace ValueType

theorem documents_eq_map (ts : List ValueType) : documents ts = ts.map document := by
  induction ts with
  | nil => rfl
  | cons t ts ih => rw [documents, ih, List.map_cons]

theorem fieldDocuments_eq {lo : Option String} (ts : Entries String ValueType lo) :
    fieldDocuments ts = ts.documentsOf document := by
  induction ts with
  | nil => rfl
  | cons name above t rest ih => rw [fieldDocuments, ih]; rfl

theorem ofItems?_eq_mapM (s : Spelling) (js : List Json) :
    ofItems? s js = js.mapM (ofJsonIn? s) := by
  induction js with
  | nil => rfl
  | cons j js ih =>
      rw [ofItems?, List.mapM_cons, ih]
      cases ofJsonIn? s j <;> cases js.mapM (ofJsonIn? s) <;> rfl

theorem ofFields?_eq_mapM? (s : Spelling) {lo : Option String} (fs : Entries String Json lo) :
    ofFields? s fs = fs.mapM? (ofJsonIn? s) := by
  induction fs with
  | nil => rfl
  | cons name above j rest ih =>
      rw [ofFields?, Entries.mapM?, ih]
      cases ofJsonIn? s j <;> cases rest.mapM? (ofJsonIn? s) <;> rfl

theorem value_document_ne_null (t : ValueType) : t.document.value ≠ .null := by
  cases t <;> nofun

theorem recovers (s : Spelling) (t : ValueType) : Recovers (ofJsonIn? s) document t := by
  induction t using ValueType.induct with
  | dynamic => rfl
  | string => rfl
  | number => rfl
  | bool => rfl
  | list t ih =>
      rw [Recovers, document, Document.value_tagged, ofJsonIn?, if_pos rfl, ih]
      rfl
  | set t ih =>
      rw [Recovers, document, Document.value_tagged, ofJsonIn?, if_neg (by decide), if_pos rfl, ih]
      rfl
  | map t ih =>
      rw [Recovers, document, Document.value_tagged, ofJsonIn?, if_neg (by decide),
        if_neg (by decide), if_pos rfl, ih]
      rfl
  | tuple ts ih =>
      have hitems : elements? s (Document.array (documents ts)).value = some ts := by
        rw [Document.value, elements?, ofItems?_eq_mapM, documents_eq_map, Document.values_eq_map,
          List.map_map]
        exact mapM_of_recovers ih
      rw [Recovers, document, Document.value_tagged, ofJsonIn?, if_neg (by decide),
        if_neg (by decide), if_neg (by decide), if_pos rfl, hitems]
      rfl
  | object fs ih =>
      have hfields : fields? s (Document.object (fieldDocuments fs)).value = some fs := by
        rw [fieldDocuments_eq, Document.value_object_documentsOf, fields?, ofFields?_eq_mapM?]
        exact mapM?_of_recovers ih
      rw [Recovers, document, Document.value_tagged, ofJsonIn?, if_neg (by decide),
        if_neg (by decide), if_neg (by decide), if_neg (by decide), if_pos rfl, hfields]
      rfl

end ValueType

theorem Scope.recovers (scope : Scope) : Recovers ofJson? document scope := by
  rw [Recovers, document, Document.value, ofJson?]
  exact ofName?_name scope

namespace Constraint

/-- The document of an attribute of an object constraint. -/
def attributeDocument (a : ObjectAttribute (List Constraint)) : Document :=
  .object [("constraints", .array (documents a.constraints)), ("optional", .bool a.isOptional)]

theorem documents_eq_map (vs : List Constraint) : documents vs = vs.map document := by
  induction vs with
  | nil => rfl
  | cons v vs ih => rw [documents, ih, List.map_cons]

theorem positionDocuments_eq_map (vss : List (List Constraint)) :
    positionDocuments vss = vss.map fun vs => .array (documents vs) := by
  induction vss with
  | nil => rfl
  | cons vs vss ih => rw [positionDocuments, ih, List.map_cons]

theorem attributeDocuments_eq {lo : Option String}
    (fs : Entries String (ObjectAttribute (List Constraint)) lo) :
    attributeDocuments fs = fs.documentsOf attributeDocument := by
  induction fs with
  | nil => rfl
  | cons name above a rest ih => rw [attributeDocuments, ih]; rfl

theorem ofItems?_eq_mapM (s : Spelling) (js : List Json) :
    ofItems? s js = js.mapM (ofJsonIn? s) := by
  induction js with
  | nil => rfl
  | cons j js ih =>
      rw [ofItems?, List.mapM_cons, ih]
      cases ofJsonIn? s j <;> cases js.mapM (ofJsonIn? s) <;> rfl

theorem setsOfItems?_eq_mapM (js : List Json) :
    setsOfItems? js = js.mapM (setOfJsonIn? .free) := by
  induction js with
  | nil => rfl
  | cons j js ih =>
      rw [setsOfItems?, List.mapM_cons, ih]
      cases setOfJsonIn? .free j <;> cases js.mapM (setOfJsonIn? .free) <;> rfl

theorem attributesOf?_eq_mapM? {lo : Option String} (fs : Entries String Json lo) :
    attributesOf? fs = fs.mapM? attribute? := by
  induction fs with
  | nil => rfl
  | cons name above j rest ih =>
      rw [attributesOf?, Entries.mapM?, ih]
      cases attribute? j <;> cases rest.mapM? attribute? <;> rfl

theorem recovers_set (s : Spelling) {vs : List Constraint}
    (h : ∀ v ∈ vs, Recovers (ofJsonIn? s) document v) :
    Recovers (setOfJsonIn? s) (fun vs => .array (documents vs)) vs := by
  rw [Recovers, Document.value, setOfJsonIn?, ofItems?_eq_mapM, documents_eq_map,
    Document.values_eq_map, List.map_map]
  exact mapM_of_recovers h

theorem recovers_attribute {a : ObjectAttribute (List Constraint)}
    (h : ∀ v ∈ a.constraints, Recovers (ofJsonIn? .free) document v) :
    Recovers attribute? attributeDocument a := by
  have hset := recovers_set .free h
  rw [Recovers] at hset
  rw [Recovers, attributeDocument, Document.value_object, attribute?, setIn?_eq]
  simp [Entries.required?, Entries.optional?, hset, Json.bool?]

/-- What a tuple constraint holds under its one shape is read by way of that shape. -/
theorem recovers_tuple {s : Spelling} {shape : String} {d : Document} {v : Constraint}
    (h : elements? (Document.tagged shape d).value = some v) :
    ofJsonIn? s (ofKind "tuple" [("elements", .tagged shape d)]).value = some v := by
  rw [ofKind, Document.value_object, ofJsonIn?, tupleIn?_eq]
  simp [Entries.required?, h]

theorem recovers (s : Spelling) (v : Constraint) : Recovers (ofJsonIn? s) document v := by
  induction v using Constraint.induct generalizing s with
  | literal t =>
      have ht : ValueType.ofJsonIn? .free t.document.value = some t := t.recovers .free
      rw [Recovers, document, ofKind, Document.value_object, ofJsonIn?]
      simp [flatOfFields?, Entries.required?, ht]
  | traversal scope ofType =>
      -- an absent type is left out, and it is not taken for a type since no type is null
      have hscope : Scope.ofJson? scope.document.value = some scope := scope.recovers
      have hmembers : (Constraint.traversal scope ofType).document =
          ofKind "scope_traversal" (("scope", scope.document) ::
            Document.memberIf "of_type" ValueType.document ofType) := by
        cases ofType <;> rfl
      have htype : (Document.fieldsOf (("kind", .string "scope_traversal") ::
          ("scope", scope.document) ::
            Document.memberIf "of_type" ValueType.document ofType)).nullable? "of_type"
              (ValueType.ofJsonIn? .free) = some ofType :=
        nullable?_of_recovers ValueType.document (by simp) ValueType.value_document_ne_null
          fun t => t.recovers .free
      rw [Recovers, hmembers, ofKind, Document.value_object, ofJsonIn?]
      simp [flatOfFields?, Entries.required?, hscope, htype]
  | uniform vs ih =>
      have hset := recovers_set .free fun v hv => ih v hv .free
      rw [Recovers] at hset ⊢
      refine recovers_tuple ?_
      rw [Document.value_tagged, elements?, if_pos rfl, hset]
      rfl
  | positional vss ih =>
      have hsets : sets? (Document.array (positionDocuments vss)).value = some vss := by
        rw [Document.value, sets?, setsOfItems?_eq_mapM, positionDocuments_eq_map,
          Document.values_eq_map, List.map_map]
        exact mapM_of_recovers fun vs hvs => recovers_set .free fun v hv => ih vs hvs v hv .free
      rw [Recovers]
      refine recovers_tuple ?_
      rw [Document.value_tagged, elements?, if_neg (by decide), if_pos rfl, hsets]
      rfl
  | map ks vs ihk ihv =>
      have hkeys := recovers_set .free fun v hv => ihk v hv .free
      have hvalues := recovers_set .free fun v hv => ihv v hv .free
      rw [Recovers] at hkeys hvalues
      rw [Recovers, document, ofKind, Document.value_object, ofJsonIn?, setIn?_eq, setIn?_eq]
      simp [Entries.required?, hkeys, hvalues]
  | object fs isOpen ih =>
      have hattributes : attributes? (Document.object (attributeDocuments fs)).value = some fs := by
        rw [attributeDocuments_eq, Document.value_object_documentsOf, attributes?,
          attributesOf?_eq_mapM?]
        exact mapM?_of_recovers fun name a ha =>
          recovers_attribute fun v hv => ih name a ha v hv .free
      rw [Recovers, document, ofKind, Document.value_object, ofJsonIn?, attributesIn?_eq]
      simp [Entries.required?, Entries.optional?, Json.bool?, hattributes]
  | typeExpression =>
      simp [Recovers, document, ofKind, Document.value_object, ofJsonIn?, flatOfFields?]
  | any => simp [Recovers, document, ofKind, Document.value_object, ofJsonIn?, flatOfFields?]

end Constraint

end ConfigSchema
