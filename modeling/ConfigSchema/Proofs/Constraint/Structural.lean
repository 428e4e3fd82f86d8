import ConfigSchema.Proofs.Constraint.Literals
import ConfigSchema.Proofs.ValueType.Rules

/-!
Types of lists and sets, tuples and objects against constraints on their parts. The first summarise
a candidate by its type and ask whether that is assignable; the second take the candidate apart and
judge each part. Main statement: made of the same types, both accept the same candidates.
-/

namespace ConfigSchema

namespace Constraint

theorem literal_accepts_iff {t : ValueType} {c : Candidate} : (literal t).accepts c = true ↔
    ∃ s, c.literalType = some s ∧ s.isAssignableTo t = true := by
  rw [accepts]
  cases c.literalType <;> simp

@[simp] theorem literal_accepts_literal (t u : ValueType) :
    (literal t).accepts (.literal u) = u.isAssignableTo t := rfl

@[simp] theorem isSatisfiedBy_singleton (v : Constraint) (c : Candidate) :
    ConstraintSet.isSatisfiedBy [v] c = v.accepts c := by
  simp [ConstraintSet.isSatisfiedBy, setAccepts]

end Constraint

namespace Candidate

open Constraint (literal_accepts_iff)

/-- A tuple of literals has items of one type when each of them is a literal of that type. -/
theorem items_fit_iff {cs : List Candidate} {t : ValueType} :
    (∃ ss, itemTypes cs = some ss ∧ ∀ s ∈ ss, s.isAssignableTo t = true) ↔
      ∀ c ∈ cs, (Constraint.literal t).accepts c = true := by
  induction cs with
  | nil => simp [itemTypes]
  | cons c cs ih =>
      rw [List.forall_mem_cons, ← ih, literal_accepts_iff, itemTypes]
      cases c.literalType <;> cases itemTypes cs <;> simp

theorem positions_fit_iff {cs : List Candidate} {ts : List ValueType} :
    (∃ ss, itemTypes cs = some ss ∧ ValueType.elementsAssignable ss ts = true) ↔
      List.Forall₂ (fun t c => (Constraint.literal t).accepts c = true) ts cs := by
  induction cs generalizing ts with
  | nil => cases ts <;> simp [itemTypes, ValueType.elementsAssignable]
  | cons c cs ih =>
      cases ts with
      | nil =>
          rw [List.forall₂_nil_left_iff, itemTypes]
          cases c.literalType <;> cases itemTypes cs <;> simp [ValueType.elementsAssignable]
      | cons t ts =>
          rw [List.forall₂_cons, ← ih, literal_accepts_iff, itemTypes]
          cases c.literalType <;> cases itemTypes cs <;>
            simp [ValueType.elementsAssignable]

theorem values_fit_iff {lo : Option String} {fs : Entries String Candidate lo} {t : ValueType} :
    (∃ ss, fieldTypes fs = some ss ∧ ∀ s ∈ ss.values, s.isAssignableTo t = true) ↔
      ∀ c ∈ fs.values, (Constraint.literal t).accepts c = true := by
  induction fs with
  | nil => simp [fieldTypes, Entries.values]
  | cons name above c rest ih =>
      rw [Entries.values, List.forall_mem_cons, ← ih, literal_accepts_iff, fieldTypes]
      cases c.literalType <;> cases fieldTypes rest <;> simp [Entries.values]

/-- An object of literals has the fields of a type when it has fields of the same names and each of
them is a literal of its type. -/
theorem fields_fit_iff {fs : SortedMap String Candidate} {ts : SortedMap String ValueType} :
    (∃ ss, fieldTypes fs = some ss ∧
        (ValueType.object ss).isAssignableTo (.object ts) = true) ↔
      (∀ name t, ts.get? name = some t →
          ∃ c, fs.get? name = some c ∧ (Constraint.literal t).accepts c = true) ∧
        ∀ name c, fs.get? name = some c → ∃ t, ts.get? name = some t := by
  simp only [ValueType.object_isAssignableTo_object_iff, literal_accepts_iff]
  constructor
  · rintro ⟨ss, hss, hkeys, hfit⟩
    have hget := Entries.map_eq_map_iff.1 (fieldTypes_eq_some_iff.1 hss)
    refine ⟨fun name t ht => ?_, fun name c hc => ?_⟩
    · obtain ⟨s, hs⟩ := hkeys.symm.exists_get? ht
      obtain ⟨c, hc⟩ := Entries.contains_iff.1 (hget.2 name s hs)
      obtain ⟨s', hs', hcs'⟩ := hget.1 name c hc
      cases hs.symm.trans hs'
      exact ⟨c, hc, s, hcs', hfit name s t hs ht⟩
    · obtain ⟨s, hs, -⟩ := hget.1 name c hc
      exact hkeys.exists_get? hs
  · rintro ⟨hfit, hlisted⟩
    have hkeys : fs.SameKeys ts := by
      intro name
      rw [Entries.contains_iff, Entries.contains_iff]
      constructor
      · rintro ⟨c, hc⟩
        exact hlisted name c hc
      · rintro ⟨t, ht⟩
        obtain ⟨c, hc, -⟩ := hfit name t ht
        exact ⟨c, hc⟩
    have htypes : ∀ name c, fs.get? name = some c → ∃ s, c.literalType = some s := by
      intro name c hc
      obtain ⟨t, ht⟩ := hkeys.exists_get? hc
      obtain ⟨c', hc', s, hs, -⟩ := hfit name t ht
      cases hc.symm.trans hc'
      exact ⟨s, hs⟩
    obtain ⟨ss, hss⟩ := Entries.exists_mapM?_eq_some htypes
    have hmap : fs.map literalType = ss.map some := Entries.mapM?_eq_some_iff.1 hss
    have hsame : ss.SameKeys fs :=
      (Entries.SameKeys.map some ss).symm.trans (hmap ▸ Entries.SameKeys.map literalType fs)
    refine ⟨ss, fieldTypes_eq_some_iff.2 hmap, hsame.trans hkeys, fun name s t hs ht => ?_⟩
    obtain ⟨c, hc, s', hs', hst⟩ := hfit name t ht
    obtain ⟨s'', hs'', hcs''⟩ := (Entries.map_eq_map_iff.1 hmap).1 name c hc
    cases hs.symm.trans hs''
    cases hs'.symm.trans hcs''
    exact hst

/-! Which candidates are literals of a type, by the constructor of the type. -/

section Inversion

variable {c : Candidate}

theorem literalType_eq_dynamic_iff : c.literalType = some .dynamic ↔ c.isDynamicLiteral = true := by
  cases c with
  | literal t => cases t <;> simp [literalType, isDynamicLiteral]
  | _ => simp [literalType, isDynamicLiteral]

theorem literalType_eq_list_iff {t : ValueType} :
    c.literalType = some (.list t) ↔ c = literal (.list t) := by
  cases c <;> simp [literalType]

theorem literalType_eq_set_iff {t : ValueType} :
    c.literalType = some (.set t) ↔ c = literal (.set t) := by
  cases c <;> simp [literalType]

theorem itemTypes_map_literal (ts : List ValueType) : itemTypes (ts.map literal) = some ts := by
  rw [itemTypes_eq_some_iff, List.forall₂_map_left_iff, List.forall₂_same]
  exact fun t _ => rfl

theorem fieldTypes_map_literal (ts : SortedMap String ValueType) :
    fieldTypes (ts.map literal) = some ts := by
  refine fieldTypes_eq_some_iff.2 (Entries.ext_get? fun name => ?_)
  simp only [Entries.get?_map, Option.map_map]
  rfl

theorem literalType_eq_tuple_iff {ts : List ValueType} :
    c.literalType = some (.tuple ts) ↔ ∃ cs, c.items? = some cs ∧ itemTypes cs = some ts := by
  cases c with
  | literal t => cases t <;> simp [literalType, items?, itemTypes_map_literal]
  | _ => simp [literalType, items?]

theorem literalType_eq_object_iff {ts : SortedMap String ValueType} :
    c.literalType = some (.object ts) ↔ ∃ fs, c.fields? = some fs ∧ fieldTypes fs = some ts := by
  cases c with
  | literal t => cases t <;> simp [literalType, fields?, fieldTypes_map_literal]
  | _ => simp [literalType, fields?]

/-- The elements of a candidate are its items unless it is a literal list or set. -/
theorem elements?_eq_some {cs : List Candidate} (h : c.elements? = some cs) :
    (∃ u, c = literal (.list u) ∧ cs = [literal u]) ∨
      (∃ u, c = literal (.set u) ∧ cs = [literal u]) ∨ c.items? = some cs := by
  cases c with
  | literal t => cases t <;> simp_all [elements?, items?, eq_comm]
  | _ => simp_all [elements?]

end Inversion

end Candidate

namespace Constraint

open Candidate (literalType_eq_dynamic_iff)

/-! What the types of lists and sets, tuples and objects ask of the parts of a candidate. -/

section Parts

variable {c : Candidate}

/-- What is not known before evaluation may be of any type. -/
theorem literal_accepts_of_isDynamicLiteral (h : c.isDynamicLiteral = true) (t : ValueType) :
    (literal t).accepts c = true :=
  literal_accepts_iff.2
    ⟨.dynamic, literalType_eq_dynamic_iff.2 h, ValueType.dynamic_isAssignableTo t⟩

theorem literal_tuple_accepts_iff {ts : List ValueType} :
    (literal (.tuple ts)).accepts c = true ↔ c.isDynamicLiteral = true ∨
      ∃ cs, c.items? = some cs ∧ List.Forall₂ (fun t x => (literal t).accepts x = true) ts cs := by
  constructor
  · intro h
    obtain ⟨s, hs, hst⟩ := literal_accepts_iff.1 h
    obtain rfl | ⟨ss, rfl, hss⟩ := ValueType.isAssignableTo_tuple_iff.1 hst
    · exact .inl (literalType_eq_dynamic_iff.1 hs)
    · obtain ⟨cs, hcs, htypes⟩ := Candidate.literalType_eq_tuple_iff.1 hs
      exact .inr ⟨cs, hcs, Candidate.positions_fit_iff.1 ⟨ss, htypes, hss⟩⟩
  · rintro (h | ⟨cs, hcs, hfit⟩)
    · exact literal_accepts_of_isDynamicLiteral h _
    · obtain ⟨ss, htypes, hss⟩ := Candidate.positions_fit_iff.2 hfit
      exact literal_accepts_iff.2
        ⟨.tuple ss, Candidate.literalType_eq_tuple_iff.2 ⟨cs, hcs, htypes⟩,
          ValueType.isAssignableTo_tuple_iff.2 (.inr ⟨ss, rfl, hss⟩)⟩

theorem literal_object_accepts_iff {ts : SortedMap String ValueType} :
    (literal (.object ts)).accepts c = true ↔ c.isDynamicLiteral = true ∨
      ∃ fs, c.fields? = some fs ∧
        (∀ name t, ts.get? name = some t →
          ∃ x, fs.get? name = some x ∧ (literal t).accepts x = true) ∧
        ∀ name x, fs.get? name = some x → ∃ t, ts.get? name = some t := by
  constructor
  · intro h
    obtain ⟨s, hs, hst⟩ := literal_accepts_iff.1 h
    obtain rfl | ⟨ss, rfl, -⟩ := ValueType.isAssignableTo_object_iff.1 hst
    · exact .inl (literalType_eq_dynamic_iff.1 hs)
    · obtain ⟨fs, hfs, htypes⟩ := Candidate.literalType_eq_object_iff.1 hs
      exact .inr ⟨fs, hfs, Candidate.fields_fit_iff.1 ⟨ss, htypes, hst⟩⟩
  · rintro (h | ⟨fs, hfs, hfit⟩)
    · exact literal_accepts_of_isDynamicLiteral h _
    · obtain ⟨ss, htypes, hst⟩ := Candidate.fields_fit_iff.2 hfit
      exact literal_accepts_iff.2
        ⟨.object ss, Candidate.literalType_eq_object_iff.2 ⟨fs, hfs, htypes⟩, hst⟩

theorem exists_elements_of_tuple {us : List ValueType} {t : ValueType}
    (hc : c.literalType = some (.tuple us)) (hus : ∀ u ∈ us, u.isAssignableTo t = true) :
    ∃ cs, c.elements? = some cs ∧ ∀ x ∈ cs, (literal t).accepts x = true := by
  obtain ⟨cs, hcs, htypes⟩ := Candidate.literalType_eq_tuple_iff.1 hc
  exact ⟨cs, Candidate.elements?_of_items? hcs, Candidate.items_fit_iff.1 ⟨us, htypes, hus⟩⟩

/-- A type of lists and one of sets together ask of the elements what each of them asks. -/
theorem literal_list_or_set_accepts_iff {t : ValueType} :
    (literal (.list t)).accepts c = true ∨ (literal (.set t)).accepts c = true ↔
      c.isDynamicLiteral = true ∨
        ∃ cs, c.elements? = some cs ∧ ∀ x ∈ cs, (literal t).accepts x = true := by
  constructor
  · rintro (h | h)
    · obtain ⟨s, hs, hst⟩ := literal_accepts_iff.1 h
      obtain rfl | ⟨u, rfl, hu⟩ | ⟨us, rfl, hus⟩ := ValueType.isAssignableTo_list_iff.1 hst
      · exact .inl (literalType_eq_dynamic_iff.1 hs)
      · obtain rfl := Candidate.literalType_eq_list_iff.1 hs
        exact .inr ⟨[.literal u], rfl, by simpa using hu⟩
      · exact .inr (exists_elements_of_tuple hs hus)
    · obtain ⟨s, hs, hst⟩ := literal_accepts_iff.1 h
      obtain rfl | ⟨u, rfl, hu⟩ | ⟨us, rfl, hus⟩ := ValueType.isAssignableTo_set_iff.1 hst
      · exact .inl (literalType_eq_dynamic_iff.1 hs)
      · obtain rfl := Candidate.literalType_eq_set_iff.1 hs
        exact .inr ⟨[.literal u], rfl, by simpa using hu⟩
      · exact .inr (exists_elements_of_tuple hs hus)
  · rintro (h | ⟨cs, hcs, hfit⟩)
    · exact .inl (literal_accepts_of_isDynamicLiteral h _)
    · obtain ⟨u, rfl, rfl⟩ | ⟨u, rfl, rfl⟩ | hitems := Candidate.elements?_eq_some hcs
      · exact .inl (by simpa [ValueType.isAssignableTo_list_iff] using hfit)
      · exact .inr (by simpa [ValueType.isAssignableTo_set_iff] using hfit)
      · obtain ⟨us, hus, hfit⟩ := Candidate.items_fit_iff.2 hfit
        exact .inl (literal_accepts_iff.2 ⟨.tuple us,
          Candidate.literalType_eq_tuple_iff.2 ⟨cs, hitems, hus⟩,
          ValueType.isAssignableTo_list_iff.2 (.inr (.inr ⟨us, rfl, hfit⟩))⟩)

end Parts

/-- A closed object with one attribute of each of the types, none of them optional. -/
def requiredFields (ts : SortedMap String ValueType) : Constraint :=
  object (ts.map fun t => ⟨[literal t], false⟩) false

theorem requiredFields_accepts_iff {ts : SortedMap String ValueType} {c : Candidate} :
    (requiredFields ts).accepts c = true ↔ (literal (.object ts)).accepts c = true := by
  rw [requiredFields, accepts_object_iff, literal_object_accepts_iff]
  refine or_congr_right (exists_congr fun fs => and_congr_right fun _ => ?_)
  simp only [Entries.get?_map, Option.map_eq_some_iff, Option.map_eq_none_iff]
  constructor
  · rintro ⟨hrequired, hlisted, hother⟩
    refine ⟨fun name t ht => ?_, fun name x hx => ?_⟩
    · obtain ⟨x, hx⟩ := hrequired name _ ⟨t, ht, rfl⟩ rfl
      exact ⟨x, hx, by simpa using hlisted name _ x ⟨t, ht, rfl⟩ hx⟩
    · cases ht : ts.get? name with
      | some t => exact ⟨t, rfl⟩
      | none => exact absurd (hother name x hx ht) (by decide)
  · rintro ⟨hfit, hlisted⟩
    refine ⟨?_, ?_, fun name x hx hnone => ?_⟩
    · rintro name _ ⟨t, ht, rfl⟩ -
      obtain ⟨x, hx, -⟩ := hfit name t ht
      exact ⟨x, hx⟩
    · rintro name _ x ⟨t, ht, rfl⟩ hx
      obtain ⟨x', hx', hfits⟩ := hfit name t ht
      cases hx.symm.trans hx'
      simpa using hfits
    · obtain ⟨t, ht⟩ := hlisted name x hx
      cases hnone.symm.trans ht

/-- Constraints on elements, positions and fields accept what the types of lists or sets, of tuples
and of objects accept that are made of the same types. -/
theorem structural_accepts_iff (c : Candidate) :
    (∀ t : ValueType, (uniform [literal t]).accepts c = true ↔
      (literal (.list t)).accepts c = true ∨ (literal (.set t)).accepts c = true) ∧
    (∀ ts : List ValueType, (positional (ts.map fun t => [literal t])).accepts c = true ↔
      (literal (.tuple ts)).accepts c = true) ∧
    ∀ ts : SortedMap String ValueType, (requiredFields ts).accepts c = true ↔
      (literal (.object ts)).accepts c = true := by
  refine ⟨fun t => ?_, fun ts => ?_, fun ts => requiredFields_accepts_iff⟩
  · rw [literal_list_or_set_accepts_iff, accepts_uniform_iff]
    simp
  · rw [literal_tuple_accepts_iff, accepts_positional_iff]
    simp

end Constraint

end ConfigSchema
