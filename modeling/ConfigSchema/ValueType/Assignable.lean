import ConfigSchema.ValueType.Basic

/-!
Assignability: whether a value of one type is acceptable where another type is declared. Primitive
types do not convert. A tuple fits a list or a set when all its elements fit the element type, an
object fits a map when all its fields do, and objects fit when they have the same fields.
-/

namespace ConfigSchema.ValueType

mutual

def isAssignableTo : ValueType → ValueType → Bool
  | _, dynamic => true
  | dynamic, _ => true
  | string, string => true
  | number, number => true
  | bool, bool => true
  | list s, list t => s.isAssignableTo t
  | set s, set t => s.isAssignableTo t
  | map s, map t => s.isAssignableTo t
  | tuple ss, list t => ss.all fun s => s.isAssignableTo t
  | tuple ss, set t => ss.all fun s => s.isAssignableTo t
  | object ss, map t => ss.values.all fun s => s.isAssignableTo t
  | tuple ss, tuple ts => elementsAssignable ss ts
  | object ss, object ts => ss.size == ts.size && fieldsAssignable ss ts
  | _, _ => false

/-- Position by position, with the same number of elements. -/
def elementsAssignable : List ValueType → List ValueType → Bool
  | [], [] => true
  | s :: ss, t :: ts => s.isAssignableTo t && elementsAssignable ss ts
  | _, _ => false

/-- Every declared field is there with a type that fits. -/
def fieldsAssignable (ss : Entries String ValueType none) {lo : Option String} :
    Entries String ValueType lo → Bool
  | .nil => true
  | .cons name _ t ts =>
    (match ss.get? name with
      | some s => s.isAssignableTo t
      | none => false) && fieldsAssignable ss ts

end

@[simp] theorem isAssignableTo_dynamic (s : ValueType) : s.isAssignableTo dynamic = true := by
  cases s <;> rfl

@[simp] theorem dynamic_isAssignableTo (t : ValueType) : dynamic.isAssignableTo t = true := by
  cases t <;> rfl

theorem elementsAssignable_iff {ss ts : List ValueType} :
    elementsAssignable ss ts = true ↔
      ss.length = ts.length ∧ ∀ p ∈ ss.zip ts, p.1.isAssignableTo p.2 = true := by
  induction ss generalizing ts with
  | nil => cases ts <;> simp [elementsAssignable]
  | cons s ss ih => cases ts <;> simp [elementsAssignable, ih, and_left_comm]

theorem fieldsAssignable_iff {ss : Entries String ValueType none} {lo : Option String}
    {ts : Entries String ValueType lo} :
    fieldsAssignable ss ts = true ↔
      ∀ k t, ts.get? k = some t → ∃ s, ss.get? k = some s ∧ s.isAssignableTo t = true := by
  induction ts with
  | nil => simp [fieldsAssignable]
  | cons key hk t ts ih =>
    rw [fieldsAssignable, Bool.and_eq_true, ih]
    constructor
    · rintro ⟨h, hs⟩ k u hu
      rw [Entries.get?_cons] at hu
      split at hu
      next e =>
        subst e
        cases hu
        split at h
        next s hs => exact ⟨s, hs, h⟩
        next => cases h
      next => exact hs k u hu
    · intro h
      refine ⟨?_, fun k u hu => h k u ?_⟩
      · obtain ⟨s, hs, hst⟩ := h key t (by simp)
        simp [hs, hst]
      · have hlt := Above.some_iff.1 (Entries.above_of_get? hu)
        have hne : key ≠ k := fun e => by simp [e] at hlt
        rw [Entries.get?_cons, if_neg hne, hu]

/-! Which types fit a declared type, by the constructor of the declared one. -/

section Inversion

variable {s t : ValueType}

theorem isAssignableTo_list_iff : s.isAssignableTo (list t) = true ↔ s = dynamic ∨
    (∃ u, s = list u ∧ u.isAssignableTo t = true) ∨
      ∃ us, s = tuple us ∧ ∀ u ∈ us, u.isAssignableTo t = true := by
  cases s <;> simp [isAssignableTo]

theorem isAssignableTo_set_iff : s.isAssignableTo (set t) = true ↔ s = dynamic ∨
    (∃ u, s = set u ∧ u.isAssignableTo t = true) ∨
      ∃ us, s = tuple us ∧ ∀ u ∈ us, u.isAssignableTo t = true := by
  cases s <;> simp [isAssignableTo]

theorem isAssignableTo_map_iff : s.isAssignableTo (map t) = true ↔ s = dynamic ∨
    (∃ u, s = map u ∧ u.isAssignableTo t = true) ∨
      ∃ us, s = object us ∧ ∀ u ∈ us.values, u.isAssignableTo t = true := by
  cases s <;> simp [isAssignableTo]

theorem isAssignableTo_tuple_iff {ts : List ValueType} :
    s.isAssignableTo (tuple ts) = true ↔
      s = dynamic ∨ ∃ us, s = tuple us ∧ elementsAssignable us ts = true := by
  cases s <;> simp [isAssignableTo]

theorem isAssignableTo_object_iff {ts : Entries String ValueType none} :
    s.isAssignableTo (object ts) = true ↔ s = dynamic ∨
      ∃ us, s = object us ∧ us.size = ts.size ∧ fieldsAssignable us ts = true := by
  cases s <;> simp [isAssignableTo]

end Inversion

end ConfigSchema.ValueType
