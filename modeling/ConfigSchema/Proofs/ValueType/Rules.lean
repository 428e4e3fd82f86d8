import ConfigSchema.Proofs.SortedMap.Keys
import ConfigSchema.ValueType.Assignable

/-!
The rules of assignability, one for each pair of kinds of types that it connects. Main statement:
`isAssignableTo_iff_fits`, a type is assignable to another one exactly when the rules derive it. An
argument about three types, or about two types and their parts, goes by the rules.
-/

namespace ConfigSchema.ValueType

/-- A value of the first type is acceptable where the second one is declared. -/
inductive Fits : ValueType → ValueType → Prop
  | toDynamic (s : ValueType) : Fits s dynamic
  | ofDynamic (t : ValueType) : Fits dynamic t
  | string : Fits string string
  | number : Fits number number
  | bool : Fits bool bool
  | list {s t : ValueType} : Fits s t → Fits (list s) (list t)
  | set {s t : ValueType} : Fits s t → Fits (set s) (set t)
  | map {s t : ValueType} : Fits s t → Fits (map s) (map t)
  | tupleToList {ss : List ValueType} {t : ValueType} :
    (∀ s ∈ ss, Fits s t) → Fits (tuple ss) (list t)
  | tupleToSet {ss : List ValueType} {t : ValueType} :
    (∀ s ∈ ss, Fits s t) → Fits (tuple ss) (set t)
  | objectToMap {fs : SortedMap String ValueType} {t : ValueType} :
    (∀ name s, fs.get? name = some s → Fits s t) → Fits (object fs) (map t)
  | tuple {ss ts : List ValueType} : ss.length = ts.length →
    (∀ (i : Nat) s t, ss[i]? = some s → ts[i]? = some t → Fits s t) → Fits (tuple ss) (tuple ts)
  | object {fs gs : SortedMap String ValueType} : fs.SameKeys gs →
    (∀ name s t, fs.get? name = some s → gs.get? name = some t → Fits s t) →
    Fits (object fs) (object gs)

/-- Lists of one length have elements at the same positions. -/
theorem exists_getElem? {α β : Type} {as : List α} {bs : List β} (h : as.length = bs.length)
    {i : Nat} {a : α} (ha : as[i]? = some a) : ∃ b, bs[i]? = some b := by
  have hi : i < bs.length := h ▸ (List.getElem?_eq_some_iff.1 ha).1
  exact ⟨bs[i], List.getElem?_eq_getElem hi⟩

theorem exists_mem_of_mem {α β : Type} {R : α → β → Prop} {as : List α} {bs : List β}
    (hlength : as.length = bs.length)
    (h : ∀ (i : Nat) a b, as[i]? = some a → bs[i]? = some b → R a b) {a : α} (ha : a ∈ as) :
    ∃ b ∈ bs, R a b := by
  obtain ⟨i, hai⟩ := List.mem_iff_getElem?.1 ha
  obtain ⟨b, hbi⟩ := exists_getElem? hlength hai
  exact ⟨b, List.mem_of_getElem? hbi, h i a b hai hbi⟩

theorem tuple_isAssignableTo_tuple_iff {ss ts : List ValueType} :
    (tuple ss).isAssignableTo (tuple ts) = true ↔ ss.length = ts.length ∧
      ∀ (i : Nat) s t, ss[i]? = some s → ts[i]? = some t → s.isAssignableTo t = true := by
  rw [isAssignableTo, elementsAssignable_iff]
  refine and_congr_right fun _ => ⟨fun h i s t hs ht => ?_, fun h p hp => ?_⟩
  · exact h (s, t) (List.mem_iff_getElem?.2 ⟨i, List.getElem?_zip_eq_some.2 ⟨hs, ht⟩⟩)
  · obtain ⟨i, hi⟩ := List.mem_iff_getElem?.1 hp
    obtain ⟨hs, ht⟩ := List.getElem?_zip_eq_some.1 hi
    exact h i p.1 p.2 hs ht

/-- Objects of one size, the first of which has all fields of the second one, have the same fields.
-/
theorem object_isAssignableTo_object_iff {fs gs : SortedMap String ValueType} :
    (object fs).isAssignableTo (object gs) = true ↔ fs.SameKeys gs ∧
      ∀ name s t, fs.get? name = some s → gs.get? name = some t → s.isAssignableTo t = true := by
  rw [isAssignableTo, Bool.and_eq_true, beq_iff_eq, fieldsAssignable_iff]
  constructor
  · rintro ⟨hsize, hfields⟩
    refine ⟨Entries.sameKeys_of_size_eq hsize fun name hname => ?_, fun name s t hs ht => ?_⟩
    · obtain ⟨t, ht⟩ := Entries.contains_iff.1 hname
      obtain ⟨s, hs, -⟩ := hfields name t ht
      exact Entries.contains_iff.2 ⟨s, hs⟩
    · obtain ⟨s', hs', hst⟩ := hfields name t ht
      cases hs.symm.trans hs'
      exact hst
  · rintro ⟨hkeys, hfields⟩
    refine ⟨hkeys.size_eq, fun name t ht => ?_⟩
    obtain ⟨s, hs⟩ := hkeys.symm.exists_get? ht
    exact ⟨s, hs, hfields name s t hs ht⟩

theorem Fits.isAssignableTo {s t : ValueType} (h : Fits s t) : s.isAssignableTo t = true := by
  induction h with
  | toDynamic s => exact isAssignableTo_dynamic s
  | ofDynamic t => exact dynamic_isAssignableTo t
  | string => rfl
  | number => rfl
  | bool => rfl
  | list _ ih => exact isAssignableTo_list_iff.2 (.inr (.inl ⟨_, rfl, ih⟩))
  | set _ ih => exact isAssignableTo_set_iff.2 (.inr (.inl ⟨_, rfl, ih⟩))
  | map _ ih => exact isAssignableTo_map_iff.2 (.inr (.inl ⟨_, rfl, ih⟩))
  | tupleToList _ ih => exact isAssignableTo_list_iff.2 (.inr (.inr ⟨_, rfl, ih⟩))
  | tupleToSet _ ih => exact isAssignableTo_set_iff.2 (.inr (.inr ⟨_, rfl, ih⟩))
  | objectToMap _ ih =>
      refine isAssignableTo_map_iff.2 (.inr (.inr ⟨_, rfl, fun s hs => ?_⟩))
      obtain ⟨name, hname⟩ := Entries.mem_values_iff.1 hs
      exact ih name s hname
  | tuple hlength _ ih => exact tuple_isAssignableTo_tuple_iff.2 ⟨hlength, ih⟩
  | object hkeys _ ih => exact object_isAssignableTo_object_iff.2 ⟨hkeys, ih⟩

/-- By induction on the declared type, which is taken apart in every rule but the one for values of
unknown type. -/
theorem fits_of_isAssignableTo {s t : ValueType} (h : s.isAssignableTo t = true) : Fits s t := by
  induction t using ValueType.induct generalizing s with
  | dynamic => exact .toDynamic s
  | string => cases s with
    | dynamic => exact .ofDynamic _
    | string => exact .string
    | _ => simp [ValueType.isAssignableTo] at h
  | number => cases s with
    | dynamic => exact .ofDynamic _
    | number => exact .number
    | _ => simp [ValueType.isAssignableTo] at h
  | bool => cases s with
    | dynamic => exact .ofDynamic _
    | bool => exact .bool
    | _ => simp [ValueType.isAssignableTo] at h
  | list t ih =>
      obtain rfl | ⟨u, rfl, hu⟩ | ⟨us, rfl, hus⟩ := isAssignableTo_list_iff.1 h
      · exact .ofDynamic _
      · exact .list (ih hu)
      · exact .tupleToList fun u hu => ih (hus u hu)
  | set t ih =>
      obtain rfl | ⟨u, rfl, hu⟩ | ⟨us, rfl, hus⟩ := isAssignableTo_set_iff.1 h
      · exact .ofDynamic _
      · exact .set (ih hu)
      · exact .tupleToSet fun u hu => ih (hus u hu)
  | map t ih =>
      obtain rfl | ⟨u, rfl, hu⟩ | ⟨us, rfl, hus⟩ := isAssignableTo_map_iff.1 h
      · exact .ofDynamic _
      · exact .map (ih hu)
      · exact .objectToMap fun name u hu => ih (hus u (Entries.mem_values_iff.2 ⟨name, hu⟩))
  | tuple ts ih =>
      obtain rfl | ⟨us, rfl, -⟩ := isAssignableTo_tuple_iff.1 h
      · exact .ofDynamic _
      · obtain ⟨hlength, hparts⟩ := tuple_isAssignableTo_tuple_iff.1 h
        exact .tuple hlength fun i s t hs ht =>
          ih t (List.mem_of_getElem? ht) (hparts i s t hs ht)
  | object gs ih =>
      obtain rfl | ⟨us, rfl, -⟩ := isAssignableTo_object_iff.1 h
      · exact .ofDynamic _
      · obtain ⟨hkeys, hparts⟩ := object_isAssignableTo_object_iff.1 h
        exact .object hkeys fun name s t hs ht => ih name t ht (hparts name s t hs ht)

theorem isAssignableTo_iff_fits {s t : ValueType} : s.isAssignableTo t = true ↔ Fits s t :=
  ⟨fits_of_isAssignableTo, Fits.isAssignableTo⟩

end ConfigSchema.ValueType
