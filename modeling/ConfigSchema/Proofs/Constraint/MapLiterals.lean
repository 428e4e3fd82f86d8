import ConfigSchema.Proofs.Constraint.Structural

/-!
Maps of literals against map types. A map that is written out is summarised by one type for all its
values, which is unknown when they differ, while a constraint on the parts of a map judges value by
value. Main statement: the two agree on every candidate but the mixed maps, which a map type accepts
whatever their values are.
-/

namespace ConfigSchema

namespace Candidate

open Constraint (literal_accepts_iff)

/-- A map of literals under string keys whose values are of more than one type and do not all fit
the type of the elements. -/
def IsMixedMap (t : ValueType) (c : Candidate) : Prop :=
  ∃ es, c = map es ∧
    (∀ e ∈ es, (Constraint.literal .string).accepts e.1 = true ∧
      ∃ s, e.2.literalType = some s) ∧
    (∃ e ∈ es, ∃ e' ∈ es, e.2.literalType ≠ e'.2.literalType) ∧
    ∃ e ∈ es, (Constraint.literal t).accepts e.2 = false

theorem commonType_isAssignableTo_iff {ts : List ValueType} {t : ValueType} :
    (commonType ts).isAssignableTo t = true ↔
      (∀ s ∈ ts, s.isAssignableTo t = true) ∨ ∃ s ∈ ts, ∃ s' ∈ ts, s ≠ s' := by
  cases ts with
  | nil => simp [commonType]
  | cons u us =>
      rw [commonType]
      split
      next hsame =>
        have heq : ∀ s ∈ u :: us, s = u := by simpa using hsame
        constructor
        · intro hu
          exact .inl fun s hs => heq s hs ▸ hu
        · rintro (hall | ⟨s, hs, s', hs', hne⟩)
          · exact hall u List.mem_cons_self
          · exact absurd ((heq s hs).trans (heq s' hs').symm) hne
      next hsame =>
        obtain ⟨s, hs, hne⟩ : ∃ s ∈ us, s ≠ u := by simpa using hsame
        exact iff_of_true (ValueType.dynamic_isAssignableTo t)
          (.inr ⟨s, List.mem_cons_of_mem u hs, u, List.mem_cons_self, hne⟩)

/-! The types of the values of a map. -/

section Entries

variable {es : List (Candidate × Candidate)} {ts : List ValueType}

theorem entryTypes_eq_some_iff : entryTypes es = some ts ↔
    (∀ e ∈ es, (Constraint.literal .string).accepts e.1 = true) ∧
      es.map (fun e => e.2.literalType) = ts.map some := by
  induction es generalizing ts with
  | nil => cases ts <;> simp [entryTypes]
  | cons e es ih =>
      obtain ⟨k, v⟩ := e
      rw [entryTypes, List.forall_mem_cons, literal_accepts_iff, List.map_cons]
      constructor
      · intro h
        split at h
        next s t us hs ht hus =>
          split at h
          next hkey =>
            cases h
            obtain ⟨hkeys, htypes⟩ := ih.1 hus
            exact ⟨⟨⟨s, hs, hkey⟩, hkeys⟩, by rw [ht, htypes, List.map_cons]⟩
          next => cases h
        next => cases h
      · rintro ⟨⟨⟨s, hs, hkey⟩, hkeys⟩, htypes⟩
        obtain ⟨t, us, rfl, ht, hus⟩ := List.map_eq_cons_iff.1 htypes.symm
        simp only [hs, ← ht, ih.2 ⟨hkeys, hus.symm⟩, if_pos hkey]

theorem exists_entryTypes_iff : (∃ ts, entryTypes es = some ts) ↔
    ∀ e ∈ es, (Constraint.literal .string).accepts e.1 = true ∧
      ∃ s, e.2.literalType = some s := by
  constructor
  · rintro ⟨ts, hts⟩ e he
    obtain ⟨hkeys, htypes⟩ := entryTypes_eq_some_iff.1 hts
    have hmem : e.2.literalType ∈ ts.map some := htypes ▸ List.mem_map_of_mem he
    obtain ⟨s, -, hs⟩ := List.mem_map.1 hmem
    exact ⟨hkeys e he, s, hs.symm⟩
  · intro h
    refine ⟨es.map fun e => e.2.literalType.getD .dynamic,
      entryTypes_eq_some_iff.2 ⟨fun e he => (h e he).1, ?_⟩⟩
    rw [List.map_map]
    refine List.map_congr_left fun e he => ?_
    obtain ⟨s, hs⟩ := (h e he).2
    simp [hs]

theorem mem_entryTypes_iff (h : entryTypes es = some ts) {s : ValueType} :
    s ∈ ts ↔ ∃ e ∈ es, e.2.literalType = some s := by
  rw [← List.mem_map (f := fun e : Candidate × Candidate => e.2.literalType),
    (entryTypes_eq_some_iff.1 h).2]
  simp

theorem values_fit_entryTypes_iff (h : entryTypes es = some ts) {t : ValueType} :
    (∀ s ∈ ts, s.isAssignableTo t = true) ↔
      ∀ e ∈ es, (Constraint.literal t).accepts e.2 = true := by
  constructor
  · intro hall e he
    obtain ⟨s, hs⟩ := (exists_entryTypes_iff.1 ⟨ts, h⟩ e he).2
    exact literal_accepts_iff.2 ⟨s, hs, hall s ((mem_entryTypes_iff h).2 ⟨e, he, hs⟩)⟩
  · intro hall s hs
    obtain ⟨e, he, hes⟩ := (mem_entryTypes_iff h).1 hs
    obtain ⟨s', hs', hst⟩ := literal_accepts_iff.1 (hall e he)
    cases hes.symm.trans hs'
    exact hst

theorem differ_entryTypes_iff (h : entryTypes es = some ts) :
    (∃ s ∈ ts, ∃ s' ∈ ts, s ≠ s') ↔
      ∃ e ∈ es, ∃ e' ∈ es, e.2.literalType ≠ e'.2.literalType := by
  constructor
  · rintro ⟨s, hs, s', hs', hne⟩
    obtain ⟨e, he, hes⟩ := (mem_entryTypes_iff h).1 hs
    obtain ⟨e', he', hes'⟩ := (mem_entryTypes_iff h).1 hs'
    exact ⟨e, he, e', he', by simpa [hes, hes'] using hne⟩
  · rintro ⟨e, he, e', he', hne⟩
    have htypes := exists_entryTypes_iff.1 ⟨ts, h⟩
    obtain ⟨s, hs⟩ := (htypes e he).2
    obtain ⟨s', hs'⟩ := (htypes e' he').2
    exact ⟨s, (mem_entryTypes_iff h).2 ⟨e, he, hs⟩, s', (mem_entryTypes_iff h).2 ⟨e', he', hs'⟩,
      by simpa [hs, hs'] using hne⟩

end Entries

end Candidate

namespace Constraint

open Candidate (entryTypes)

section Maps

variable {t : ValueType}

/-- The summary of a map that is written out fits a map type when each value does, or when the
values are of more than one type. -/
theorem literal_map_accepts_map_iff {es : List (Candidate × Candidate)} :
    (literal (.map t)).accepts (.map es) = true ↔
      (∀ e ∈ es, (literal .string).accepts e.1 = true ∧ (literal t).accepts e.2 = true) ∨
        (Candidate.map es).IsMixedMap t := by
  have hsummary : (literal (.map t)).accepts (.map es) = true ↔
      ∃ ts, entryTypes es = some ts ∧ (Candidate.commonType ts).isAssignableTo t = true := by
    rw [literal_accepts_iff, Candidate.literalType]
    cases entryTypes es <;> simp [ValueType.isAssignableTo_map_iff]
  rw [hsummary]
  constructor
  · rintro ⟨ts, hts, hcommon⟩
    have htypes := Candidate.exists_entryTypes_iff.1 ⟨ts, hts⟩
    by_cases hfit : ∀ e ∈ es, (literal t).accepts e.2 = true
    · exact .inl fun e he => ⟨(htypes e he).1, hfit e he⟩
    · refine .inr ⟨es, rfl, htypes, ?_, by simpa using hfit⟩
      obtain hall | hdiffer := Candidate.commonType_isAssignableTo_iff.1 hcommon
      · exact absurd ((Candidate.values_fit_entryTypes_iff hts).1 hall) hfit
      · exact (Candidate.differ_entryTypes_iff hts).1 hdiffer
  · rintro (hall | ⟨_, ⟨⟩, htypes, hdiffer, -⟩)
    · have htypes : ∀ e ∈ es, (literal .string).accepts e.1 = true ∧
          ∃ s, e.2.literalType = some s := fun e he =>
        ⟨(hall e he).1, (literal_accepts_iff.1 (hall e he).2).imp fun _ hs => hs.1⟩
      obtain ⟨ts, hts⟩ := Candidate.exists_entryTypes_iff.2 htypes
      exact ⟨ts, hts, Candidate.commonType_isAssignableTo_iff.2
        (.inl ((Candidate.values_fit_entryTypes_iff hts).2 fun e he => (hall e he).2))⟩
    · obtain ⟨ts, hts⟩ := Candidate.exists_entryTypes_iff.2 htypes
      exact ⟨ts, hts, Candidate.commonType_isAssignableTo_iff.2
        (.inr ((Candidate.differ_entryTypes_iff hts).2 hdiffer))⟩

/-- The fields of an object are judged one by one on both sides. -/
theorem literal_map_accepts_object_iff {fs : SortedMap String Candidate} :
    (literal (.map t)).accepts (.object fs) = true ↔
      ∀ x ∈ fs.values, (literal t).accepts x = true := by
  rw [literal_accepts_iff, ← Candidate.values_fit_iff, Candidate.literalType]
  cases Candidate.fieldTypes fs <;> simp [ValueType.isAssignableTo_map_iff]

theorem map_accepts_iff {c : Candidate} :
    (map [literal .string] [literal t]).accepts c = true ↔ c.isDynamicLiteral = true ∨
      ∃ es, c.pairs? = some es ∧
        ∀ e ∈ es, (literal .string).accepts e.1 = true ∧ (literal t).accepts e.2 = true := by
  rw [accepts_map_iff]
  simp only [isSatisfiedBy_singleton]

/-- Without a map that is written out, both sides judge the same parts. -/
theorem literal_map_accepts_of_not_map {c : Candidate} (h : ¬∃ es, c = .map es) :
    (literal (.map t)).accepts c = true ↔
      (map [literal .string] [literal t]).accepts c = true := by
  have hstring : ValueType.string.isAssignableTo .string = true := rfl
  rw [map_accepts_iff]
  cases c with
  | map es => exact absurd ⟨es, rfl⟩ h
  | object fs =>
      rw [literal_map_accepts_object_iff]
      simp [-Prod.forall, Candidate.isDynamicLiteral, Candidate.pairs?, Candidate.entries?, hstring]
  | literal s =>
      rw [literal_accepts_literal, ValueType.isAssignableTo_map_iff]
      cases s <;> simp [-Prod.forall, Candidate.isDynamicLiteral, Candidate.pairs?,
        Candidate.entries?, hstring]
  | tuple cs =>
      rw [literal_accepts_iff, Candidate.literalType]
      cases Candidate.itemTypes cs <;> simp [Candidate.isDynamicLiteral, Candidate.pairs?,
        Candidate.entries?, ValueType.isAssignableTo_map_iff]
  | traversal scope s =>
      simp [literal_accepts_iff, Candidate.literalType, Candidate.isDynamicLiteral,
        Candidate.pairs?, Candidate.entries?]
  | typeExpression s =>
      simp [literal_accepts_iff, Candidate.literalType, Candidate.isDynamicLiteral,
        Candidate.pairs?, Candidate.entries?]

/-- A map type accepts what the constraint on the parts of a map accepts, and the mixed maps. -/
theorem literal_map_accepts_iff {c : Candidate} :
    (literal (.map t)).accepts c = true ↔
      (map [literal .string] [literal t]).accepts c = true ∨ c.IsMixedMap t := by
  by_cases hmap : ∃ es, c = .map es
  · obtain ⟨es, rfl⟩ := hmap
    rw [literal_map_accepts_map_iff, map_accepts_iff]
    simp [-Prod.forall, Candidate.isDynamicLiteral, Candidate.pairs?, Candidate.entries?]
  · have hmixed : ¬c.IsMixedMap t := by
      rintro ⟨es, hes, -⟩
      exact hmap ⟨es, hes⟩
    rw [or_iff_left hmixed, literal_map_accepts_of_not_map hmap]

theorem map_refuses_isMixedMap {c : Candidate} (h : c.IsMixedMap t) :
    (map [literal .string] [literal t]).accepts c = false := by
  obtain ⟨es, rfl, -, -, e, he, hunfit⟩ := h
  rw [← Bool.not_eq_true]
  intro haccepts
  obtain hdynamic | ⟨_, ⟨⟩, hall⟩ := map_accepts_iff.1 haccepts
  · cases hdynamic
  · have hfit : (literal t).accepts e.2 = true := (hall e he).2
    simp [hunfit] at hfit

end Maps

/-- A map type and the constraint on the parts of a map agree on all candidates but the mixed maps,
and these alone are the written maps that it accepts though a value does not fit the elements. -/
theorem literal_map_agrees_iff (t : ValueType) :
    (∀ c : Candidate, ((literal (.map t)).accepts c = true ↔
      (map [literal .string] [literal t]).accepts c = true) ↔ ¬c.IsMixedMap t) ∧
    ∀ es, ((literal (.map t)).accepts (.map es) = true →
      ∀ e ∈ es, (literal t).accepts e.2 = true) ↔ ¬(Candidate.map es).IsMixedMap t := by
  refine ⟨fun c => ?_, fun es => ?_⟩
  · rw [literal_map_accepts_iff]
    constructor
    · intro hagree hmixed
      have haccepts := hagree.1 (.inr hmixed)
      simp [map_refuses_isMixedMap hmixed] at haccepts
    · exact fun hmixed => or_iff_left hmixed
  · rw [literal_map_accepts_map_iff]
    constructor
    · intro hfit hmixed
      have hall := hfit (.inr hmixed)
      obtain ⟨_, ⟨⟩, -, -, e, he, hunfit⟩ := hmixed
      simp [hall e he] at hunfit
    · exact fun hmixed haccepts e he => (haccepts.resolve_right hmixed e he).2

/-- A map of a string and a number is taken for a map of strings. -/
theorem literal_map_accepts_stringAndNumber :
    (literal (.map .string)).accepts
        (.map [(.literal .string, .literal .string), (.literal .string, .literal .number)]) = true ∧
      (map [literal .string] [literal .string]).accepts
          (.map [(.literal .string, .literal .string), (.literal .string, .literal .number)]) =
        false ∧
      (literal .string).accepts (.literal .number) = false := by
  decide

end Constraint

end ConfigSchema
