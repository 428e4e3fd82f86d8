import ConfigSchema.Proofs.ValueType.Rules

/-!
Types of which less is known. Some parts of a type, at any depth, are replaced by `dynamic`. Main
statement: what was assignable stays assignable when less is known of either type.
-/

namespace ConfigSchema.ValueType

/-- The second type is the first one with some of its parts unknown. -/
inductive BlursTo : ValueType → ValueType → Prop
  | unknown (t : ValueType) : BlursTo t dynamic
  | string : BlursTo string string
  | number : BlursTo number number
  | bool : BlursTo bool bool
  | list {t t' : ValueType} : BlursTo t t' → BlursTo (list t) (list t')
  | set {t t' : ValueType} : BlursTo t t' → BlursTo (set t) (set t')
  | map {t t' : ValueType} : BlursTo t t' → BlursTo (map t) (map t')
  | tuple {ts ts' : List ValueType} : ts.length = ts'.length →
    (∀ (i : Nat) t t', ts[i]? = some t → ts'[i]? = some t' → BlursTo t t') →
    BlursTo (tuple ts) (tuple ts')
  | object {fs fs' : SortedMap String ValueType} : fs.SameKeys fs' →
    (∀ name t t', fs.get? name = some t → fs'.get? name = some t' → BlursTo t t') →
    BlursTo (object fs) (object fs')

/-- Nothing needs to be forgotten. -/
theorem BlursTo.refl (t : ValueType) : BlursTo t t := by
  induction t using ValueType.induct with
  | dynamic => exact .unknown dynamic
  | string => exact .string
  | number => exact .number
  | bool => exact .bool
  | list t ih => exact .list ih
  | set t ih => exact .set ih
  | map t ih => exact .map ih
  | tuple ts ih =>
      refine .tuple rfl fun i t t' ht ht' => ?_
      cases ht.symm.trans ht'
      exact ih t (List.mem_of_getElem? ht)
  | object fs ih =>
      refine .object (.refl fs) fun name t t' ht ht' => ?_
      cases ht.symm.trans ht'
      exact ih name t ht

/-- By the rules: either the rule still applies to what is left of both types, or one of them is not
known at all. -/
theorem Fits.blur {s s' t t' : ValueType} (h : Fits s t) (hs : s.BlursTo s') (ht : t.BlursTo t') :
    Fits s' t' := by
  induction h generalizing s' t' with
  | toDynamic s =>
      cases ht
      exact .toDynamic s'
  | ofDynamic t =>
      cases hs
      exact .ofDynamic t'
  | string => cases hs with
    | unknown => exact .ofDynamic t'
    | string => cases ht with
      | unknown => exact .toDynamic _
      | string => exact .string
  | number => cases hs with
    | unknown => exact .ofDynamic t'
    | number => cases ht with
      | unknown => exact .toDynamic _
      | number => exact .number
  | bool => cases hs with
    | unknown => exact .ofDynamic t'
    | bool => cases ht with
      | unknown => exact .toDynamic _
      | bool => exact .bool
  | list _ ih => cases hs with
    | unknown => exact .ofDynamic t'
    | list hs => cases ht with
      | unknown => exact .toDynamic _
      | list ht => exact .list (ih hs ht)
  | set _ ih => cases hs with
    | unknown => exact .ofDynamic t'
    | set hs => cases ht with
      | unknown => exact .toDynamic _
      | set ht => exact .set (ih hs ht)
  | map _ ih => cases hs with
    | unknown => exact .ofDynamic t'
    | map hs => cases ht with
      | unknown => exact .toDynamic _
      | map ht => exact .map (ih hs ht)
  | tupleToList _ ih => cases hs with
    | unknown => exact .ofDynamic t'
    | tuple hlength hs => cases ht with
      | unknown => exact .toDynamic _
      | list ht =>
          refine .tupleToList fun s' hs' => ?_
          obtain ⟨s, hmem, hblur⟩ := exists_mem_of_mem (R := fun s' s => BlursTo s s') hlength.symm
            (fun i s' s hsi' hsi => hs i s s' hsi hsi') hs'
          exact ih s hmem hblur ht
  | tupleToSet _ ih => cases hs with
    | unknown => exact .ofDynamic t'
    | tuple hlength hs => cases ht with
      | unknown => exact .toDynamic _
      | set ht =>
          refine .tupleToSet fun s' hs' => ?_
          obtain ⟨s, hmem, hblur⟩ := exists_mem_of_mem (R := fun s' s => BlursTo s s') hlength.symm
            (fun i s' s hsi' hsi => hs i s s' hsi hsi') hs'
          exact ih s hmem hblur ht
  | objectToMap _ ih => cases hs with
    | unknown => exact .ofDynamic t'
    | object hkeys hs => cases ht with
      | unknown => exact .toDynamic _
      | map ht =>
          refine .objectToMap fun name s' hs' => ?_
          obtain ⟨s, hname⟩ := hkeys.symm.exists_get? hs'
          exact ih name s hname (hs name s s' hname hs') ht
  | tuple hlength _ ih => cases hs with
    | unknown => exact .ofDynamic t'
    | tuple hslength hs => cases ht with
      | unknown => exact .toDynamic _
      | tuple htlength ht =>
          refine .tuple (hslength.symm.trans (hlength.trans htlength)) fun i s' t' hs' ht' => ?_
          obtain ⟨s, hsi⟩ := exists_getElem? hslength.symm hs'
          obtain ⟨t, hti⟩ := exists_getElem? htlength.symm ht'
          exact ih i s t hsi hti (hs i s s' hsi hs') (ht i t t' hti ht')
  | object hkeys _ ih => cases hs with
    | unknown => exact .ofDynamic t'
    | object hskeys hs => cases ht with
      | unknown => exact .toDynamic _
      | object htkeys ht =>
          refine .object (hskeys.symm.trans (hkeys.trans htkeys)) fun name s' t' hs' ht' => ?_
          obtain ⟨s, hsn⟩ := hskeys.symm.exists_get? hs'
          obtain ⟨t, htn⟩ := htkeys.symm.exists_get? ht'
          exact ih name s t hsn htn (hs name s s' hsn hs') (ht name t t' htn ht')

/-- Types stay assignable when less is known of them. -/
theorem isAssignableTo_of_blursTo {s s' t t' : ValueType} (hs : s.BlursTo s') (ht : t.BlursTo t')
    (h : s.isAssignableTo t = true) : s'.isAssignableTo t' = true :=
  ((fits_of_isAssignableTo h).blur hs ht).isAssignableTo

/-- A pair of strings is assignable to a set of strings; a pair of which one item is not known is
assignable to a set of elements of which nothing is known. -/
theorem isAssignableTo_of_blursTo_pair :
    (tuple [string, string]).BlursTo (tuple [string, dynamic]) ∧
      (set string).BlursTo (set dynamic) ∧
      (tuple [string, string]).isAssignableTo (set string) = true ∧
      (tuple [string, dynamic]).isAssignableTo (set dynamic) = true := by
  have hpair : (tuple [string, string]).BlursTo (tuple [string, dynamic]) := by
    refine .tuple rfl fun i t t' ht ht' => ?_
    match i with
    | 0 =>
        cases ht
        cases ht'
        exact .refl string
    | 1 =>
        cases ht
        cases ht'
        exact .unknown string
    | i + 2 => cases ht
  have hset : (set string).BlursTo (set dynamic) := .set (.unknown string)
  have hfits : (tuple [string, string]).isAssignableTo (set string) = true := by decide
  exact ⟨hpair, hset, hfits, isAssignableTo_of_blursTo hpair hset hfits⟩

end ConfigSchema.ValueType
