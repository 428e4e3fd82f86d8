import Mathlib.Order.Defs.Unbundled
import ConfigSchema.Proofs.ValueType.Rules

/-!
Assignability as an order. A type that is not known is assignable in both directions, so a chain
cannot lead through it: a string is assignable to `dynamic`, and `dynamic` to numbers. Main
statement: where the type in the middle is known throughout, assignability is transitive, and
between such types it is a partial order.
-/

namespace ConfigSchema.ValueType

/-- The type is known throughout: no part of it is `dynamic`. -/
inductive Known : ValueType → Prop
  | string : Known string
  | number : Known number
  | bool : Known bool
  | list {t : ValueType} : Known t → Known (list t)
  | set {t : ValueType} : Known t → Known (set t)
  | map {t : ValueType} : Known t → Known (map t)
  | tuple {ts : List ValueType} : (∀ t ∈ ts, Known t) → Known (tuple ts)
  | object {fs : SortedMap String ValueType} :
    (∀ name t, fs.get? name = some t → Known t) → Known (object fs)

section Known

variable {t : ValueType}

theorem not_known_dynamic : ¬dynamic.Known := by
  intro h
  cases h

theorem known_list_iff : (list t).Known ↔ t.Known :=
  ⟨fun (.list h) => h, .list⟩

theorem known_set_iff : (set t).Known ↔ t.Known :=
  ⟨fun (.set h) => h, .set⟩

theorem known_map_iff : (map t).Known ↔ t.Known :=
  ⟨fun (.map h) => h, .map⟩

theorem known_tuple_iff {ts : List ValueType} : (tuple ts).Known ↔ ∀ t ∈ ts, t.Known :=
  ⟨fun (.tuple h) => h, .tuple⟩

theorem known_object_iff {fs : SortedMap String ValueType} :
    (object fs).Known ↔ ∀ name t, fs.get? name = some t → t.Known :=
  ⟨fun (.object h) => h, .object⟩

end Known

theorem Fits.refl (t : ValueType) : Fits t t := by
  induction t using ValueType.induct with
  | dynamic => exact .toDynamic dynamic
  | string => exact .string
  | number => exact .number
  | bool => exact .bool
  | list t ih => exact .list ih
  | set t ih => exact .set ih
  | map t ih => exact .map ih
  | tuple ts ih =>
      refine .tuple rfl fun i s t hs ht => ?_
      cases hs.symm.trans ht
      exact ih s (List.mem_of_getElem? hs)
  | object fs ih =>
      refine .object (.refl fs) fun name s t hs ht => ?_
      cases hs.symm.trans ht
      exact ih name s hs

/-- Each part of the type in the middle stands between a part of the first type and one of the last
type. -/
theorem Fits.trans {s t u : ValueType} (hst : Fits s t) (ht : t.Known) (htu : Fits t u) :
    Fits s u := by
  induction hst generalizing u with
  | toDynamic s => exact absurd ht not_known_dynamic
  | ofDynamic t => exact .ofDynamic u
  | string => exact htu
  | number => exact htu
  | bool => exact htu
  | list _ ih =>
      cases htu with
      | toDynamic => exact .toDynamic _
      | list htu => exact .list (ih (known_list_iff.1 ht) htu)
  | set _ ih =>
      cases htu with
      | toDynamic => exact .toDynamic _
      | set htu => exact .set (ih (known_set_iff.1 ht) htu)
  | map _ ih =>
      cases htu with
      | toDynamic => exact .toDynamic _
      | map htu => exact .map (ih (known_map_iff.1 ht) htu)
  | tupleToList _ ih =>
      cases htu with
      | toDynamic => exact .toDynamic _
      | list htu => exact .tupleToList fun s hs => ih s hs (known_list_iff.1 ht) htu
  | tupleToSet _ ih =>
      cases htu with
      | toDynamic => exact .toDynamic _
      | set htu => exact .tupleToSet fun s hs => ih s hs (known_set_iff.1 ht) htu
  | objectToMap _ ih =>
      cases htu with
      | toDynamic => exact .toDynamic _
      | map htu => exact .objectToMap fun name s hs => ih name s hs (known_map_iff.1 ht) htu
  | @tuple ss ts hlength _ ih =>
      rw [known_tuple_iff] at ht
      have hbelow : ∀ s ∈ ss, ∃ t ∈ ts, ∀ u, Fits t u → Fits s u := fun s hs =>
        exists_mem_of_mem (R := fun s t => ∀ u, Fits t u → Fits s u) hlength
          (fun i s t hsi hti _ htu => ih i s t hsi hti (ht t (List.mem_of_getElem? hti)) htu) hs
      cases htu with
      | toDynamic => exact .toDynamic _
      | tupleToList htu =>
          refine .tupleToList fun s hs => ?_
          obtain ⟨t, hmem, hfits⟩ := hbelow s hs
          exact hfits _ (htu t hmem)
      | tupleToSet htu =>
          refine .tupleToSet fun s hs => ?_
          obtain ⟨t, hmem, hfits⟩ := hbelow s hs
          exact hfits _ (htu t hmem)
      | tuple hlength' htu =>
          refine .tuple (hlength.trans hlength') fun i s u hs hu => ?_
          obtain ⟨t, hti⟩ := exists_getElem? hlength hs
          exact ih i s t hs hti (ht t (List.mem_of_getElem? hti)) (htu i t u hti hu)
  | @object fs gs hkeys _ ih =>
      rw [known_object_iff] at ht
      cases htu with
      | toDynamic => exact .toDynamic _
      | objectToMap htu =>
          refine .objectToMap fun name s hs => ?_
          obtain ⟨t, hname⟩ := hkeys.exists_get? hs
          exact ih name s t hs hname (ht name t hname) (htu name t hname)
      | object hkeys' htu =>
          refine .object (hkeys.trans hkeys') fun name s u hs hu => ?_
          obtain ⟨t, hname⟩ := hkeys.exists_get? hs
          exact ih name s t hs hname (ht name t hname) (htu name t u hname hu)

/-- No list or set is assignable to a tuple, and no map to an object, so the same rules apply in
both directions. -/
theorem Fits.antisymm {s t : ValueType} (hst : Fits s t) (hs : s.Known) (ht : t.Known)
    (hts : Fits t s) : s = t := by
  induction hst with
  | toDynamic => exact absurd ht not_known_dynamic
  | ofDynamic => exact absurd hs not_known_dynamic
  | string => rfl
  | number => rfl
  | bool => rfl
  | list _ ih =>
      cases hts with
      | list hts => rw [ih (known_list_iff.1 hs) (known_list_iff.1 ht) hts]
  | set _ ih =>
      cases hts with
      | set hts => rw [ih (known_set_iff.1 hs) (known_set_iff.1 ht) hts]
  | map _ ih =>
      cases hts with
      | map hts => rw [ih (known_map_iff.1 hs) (known_map_iff.1 ht) hts]
  | tupleToList => cases hts
  | tupleToSet => cases hts
  | objectToMap => cases hts
  | @tuple ss ts hlength _ ih =>
      rw [known_tuple_iff] at hs ht
      cases hts with
      | tuple _ hts =>
          refine congrArg ValueType.tuple (List.ext_getElem? fun i => ?_)
          cases hsi : ss[i]? with
          | none =>
              rw [List.getElem?_eq_none_iff, hlength] at hsi
              exact (List.getElem?_eq_none hsi).symm
          | some s =>
              obtain ⟨t, hti⟩ := exists_getElem? hlength hsi
              rw [hti, ih i s t hsi hti (hs s (List.mem_of_getElem? hsi))
                (ht t (List.mem_of_getElem? hti)) (hts i t s hti hsi)]
  | @object fs gs hkeys _ ih =>
      rw [known_object_iff] at hs ht
      cases hts with
      | object _ hts =>
          refine congrArg ValueType.object (Entries.ext_get? fun name => ?_)
          cases hsn : fs.get? name with
          | none => exact (hkeys.get?_eq_none hsn).symm
          | some s =>
              obtain ⟨t, htn⟩ := hkeys.exists_get? hsn
              rw [htn, ih name s t hsn htn (hs name s hsn) (ht name t htn) (hts name t s htn hsn)]

/-- Assignability is transitive over a known type and reflexive, and known types that are assignable
to each other are equal. -/
theorem assignable_partialOrder :
    (∀ s t u : ValueType, t.Known → s.isAssignableTo t = true → t.isAssignableTo u = true →
      s.isAssignableTo u = true) ∧
    (∀ t : ValueType, t.isAssignableTo t = true) ∧
    (∀ s t : ValueType, s.Known → t.Known → s.isAssignableTo t = true →
      t.isAssignableTo s = true → s = t) ∧
    IsPartialOrder {t : ValueType // t.Known} fun s t => s.val.isAssignableTo t.val = true := by
  have htrans : ∀ s t u : ValueType, t.Known → s.isAssignableTo t = true →
      t.isAssignableTo u = true → s.isAssignableTo u = true := fun s t u ht hst htu =>
    ((fits_of_isAssignableTo hst).trans ht (fits_of_isAssignableTo htu)).isAssignableTo
  have hrefl : ∀ t : ValueType, t.isAssignableTo t = true := fun t => (Fits.refl t).isAssignableTo
  have hantisymm : ∀ s t : ValueType, s.Known → t.Known → s.isAssignableTo t = true →
      t.isAssignableTo s = true → s = t := fun s t hs ht hst hts =>
    (fits_of_isAssignableTo hst).antisymm hs ht (fits_of_isAssignableTo hts)
  exact ⟨htrans, hrefl, hantisymm,
    { refl := fun t => hrefl t
      trans := fun s t u => htrans s t u t.property
      antisymm := fun s t hst hts => Subtype.ext (hantisymm s t s.property t.property hst hts) }⟩

/-- An object with the fields `host` and `ports`. -/
def endpoint (host ports : ValueType) : ValueType :=
  object (.ofList [("host", host), ("ports", ports)])

theorem known_endpoint {host ports : ValueType} (hhost : host.Known) (hports : ports.Known) :
    (endpoint host ports).Known := by
  refine known_object_iff.2 fun name t ht => ?_
  rw [Entries.ofList, List.foldl_cons, List.foldl_cons, List.foldl_nil, Entries.get?_insert,
    Entries.get?_insert] at ht
  split at ht
  · cases ht
    exact hports
  · split at ht
    · cases ht
      exact hhost
    · cases ht

/-- A field with a pair, of which one item is not known, is assignable to a map of lists by way of a
field with a list; and the order in which fields are written makes no other type. -/
theorem assignable_partialOrder_endpoint :
    (endpoint (list number) (list number)).Known ∧
      (endpoint dynamic (tuple [number, dynamic])).isAssignableTo
        (endpoint (list number) (list number)) = true ∧
      (endpoint (list number) (list number)).isAssignableTo (map (list number)) = true ∧
      (endpoint dynamic (tuple [number, dynamic])).isAssignableTo (map (list number)) = true ∧
      endpoint string number = object (.ofList [("ports", number), ("host", string)]) := by
  have hknown : (endpoint (list number) (list number)).Known :=
    known_endpoint (.list .number) (.list .number)
  have hfirst : (endpoint dynamic (tuple [number, dynamic])).isAssignableTo
      (endpoint (list number) (list number)) = true := by decide
  have hsecond : (endpoint (list number) (list number)).isAssignableTo (map (list number)) =
      true := by decide
  have hwritten : (endpoint string number).Known := known_endpoint .string .number
  exact ⟨hknown, hfirst, hsecond, assignable_partialOrder.1 _ _ _ hknown hfirst hsecond,
    assignable_partialOrder.2.2.1 _ _ hwritten hwritten (by decide) (by decide)⟩

end ConfigSchema.ValueType
