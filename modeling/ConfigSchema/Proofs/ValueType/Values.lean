import ConfigSchema.Proofs.ValueType.Rules

/-!
Values against types. A value that is written down has a type of its own, of tuples and objects
only. Main statement: that type is assignable to another one exactly when the value conforms to it,
which is said of the value itself: of its items, its fields and their names.
-/

namespace ConfigSchema.ValueType

/-- The value can stand where the type is declared. -/
inductive Conforms : Json → ValueType → Prop
  | toDynamic (j : Json) : Conforms j dynamic
  | null (t : ValueType) : Conforms .null t
  | string (s : String) : Conforms (.string s) string
  | number (n : JsonNumber) : Conforms (.number n) number
  | bool (b : Bool) : Conforms (.bool b) bool
  | list {js : List Json} {t : ValueType} :
    (∀ j ∈ js, Conforms j t) → Conforms (.array js) (list t)
  | set {js : List Json} {t : ValueType} :
    (∀ j ∈ js, Conforms j t) → Conforms (.array js) (set t)
  /-- Position by position. -/
  | tuple {js : List Json} {ts : List ValueType} : js.length = ts.length →
    (∀ (i : Nat) j t, js[i]? = some j → ts[i]? = some t → Conforms j t) →
    Conforms (.array js) (tuple ts)
  | map {fs : SortedMap String Json} {t : ValueType} :
    (∀ name j, fs.get? name = some j → Conforms j t) → Conforms (.object fs) (map t)
  /-- Field by field, with the same names. -/
  | object {fs : SortedMap String Json} {ts : SortedMap String ValueType} : fs.SameKeys ts →
    (∀ name j t, fs.get? name = some j → ts.get? name = some t → Conforms j t) →
    Conforms (.object fs) (object ts)

@[simp] theorem ofValue_array (js : List Json) :
    ofValue (.array js) = tuple (js.map ofValue) := by
  rw [ofValue, ofItems_eq_map]

@[simp] theorem ofValue_object (fs : SortedMap String Json) :
    ofValue (.object fs) = object (fs.map ofValue) := by
  rw [ofValue, ofFields_eq_map]

theorem Conforms.fits {j : Json} {t : ValueType} (h : Conforms j t) : Fits (ofValue j) t := by
  induction h with
  | toDynamic j => exact .toDynamic _
  | null t => exact .ofDynamic t
  | string s => exact .string
  | number n => exact .number
  | bool b => exact .bool
  | list _ ih =>
      rw [ofValue_array]
      exact .tupleToList (List.forall_mem_map.2 ih)
  | set _ ih =>
      rw [ofValue_array]
      exact .tupleToSet (List.forall_mem_map.2 ih)
  | tuple hlength _ ih =>
      rw [ofValue_array]
      refine .tuple (by simpa using hlength) fun i s t hs ht => ?_
      rw [List.getElem?_map, Option.map_eq_some_iff] at hs
      obtain ⟨j, hj, rfl⟩ := hs
      exact ih i j t hj ht
  | map _ ih =>
      rw [ofValue_object]
      refine .objectToMap fun name s hs => ?_
      rw [Entries.get?_map, Option.map_eq_some_iff] at hs
      obtain ⟨j, hj, rfl⟩ := hs
      exact ih name j hj
  | object hkeys _ ih =>
      rw [ofValue_object]
      refine .object (.trans (.map _ _) hkeys) fun name s t hs ht => ?_
      rw [Entries.get?_map, Option.map_eq_some_iff] at hs
      obtain ⟨j, hj, rfl⟩ := hs
      exact ih name j t hj ht

theorem conforms_of_fits {j : Json} {t : ValueType} (h : Fits (ofValue j) t) : Conforms j t := by
  induction j using Json.induct generalizing t with
  | null => exact .null t
  | bool b => cases h with
    | toDynamic => exact .toDynamic _
    | bool => exact .bool b
  | number n => cases h with
    | toDynamic => exact .toDynamic _
    | number => exact .number n
  | string s => cases h with
    | toDynamic => exact .toDynamic _
    | string => exact .string s
  | array js ih =>
      rw [ofValue_array] at h
      cases h with
      | toDynamic => exact .toDynamic _
      | tupleToList h => exact .list fun j hj => ih j hj (h _ (List.mem_map_of_mem hj))
      | tupleToSet h => exact .set fun j hj => ih j hj (h _ (List.mem_map_of_mem hj))
      | tuple hlength h =>
          refine .tuple (by simpa using hlength) fun i j t hj ht => ?_
          exact ih j (List.mem_of_getElem? hj)
            (h i (ofValue j) t (by rw [List.getElem?_map, hj, Option.map_some]) ht)
  | object fs ih =>
      have hget : ∀ {name j}, fs.get? name = some j →
          (fs.map ofValue).get? name = some (ofValue j) := by
        intro name j hj
        rw [Entries.get?_map, hj, Option.map_some]
      rw [ofValue_object] at h
      cases h with
      | toDynamic => exact .toDynamic _
      | objectToMap h => exact .map fun name j hj => ih name j hj (h name _ (hget hj))
      | object hkeys h =>
          exact .object (.trans (.symm (.map _ _)) hkeys) fun name j t hj ht =>
            ih name j hj (h name _ t (hget hj) ht)

/-- The type of a value is assignable to those types that the value conforms to. -/
theorem ofValue_isAssignableTo_iff (j : Json) (t : ValueType) :
    (ofValue j).isAssignableTo t = true ↔ Conforms j t :=
  isAssignableTo_iff_fits.trans ⟨conforms_of_fits, Conforms.fits⟩

end ConfigSchema.ValueType
