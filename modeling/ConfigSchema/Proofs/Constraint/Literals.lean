import ConfigSchema.Proofs.Constraint.Meaning

/-!
Literals in their two forms: given by a type, or written out in tuples and objects of literals. A
constraint takes the first form apart by its type and the second one by its items and fields. Main
statement: both are judged alike, down to the alternative of a set that accepts first.
-/

namespace ConfigSchema

namespace Candidate

/-- Written in literals, tuples and objects only. -/
inductive LiteralOnly : Candidate → Prop
  | literal (t : ValueType) : LiteralOnly (literal t)
  | tuple {cs : List Candidate} : (∀ c ∈ cs, LiteralOnly c) → LiteralOnly (tuple cs)
  | object {fs : Entries String Candidate none} :
    (∀ name c, fs.get? name = some c → LiteralOnly c) → LiteralOnly (object fs)

mutual

/-- The value written out, down to its scalars. -/
def writtenOut : Json → Candidate
  | .array items => tuple (itemsWrittenOut items)
  | .object fields => object (fieldsWrittenOut fields)
  | j => ofValue j

def itemsWrittenOut : List Json → List Candidate
  | [] => []
  | j :: js => writtenOut j :: itemsWrittenOut js

def fieldsWrittenOut {lo : Option String} :
    Entries String Json lo → Entries String Candidate lo
  | .nil => .nil
  | .cons name above j rest => .cons name above (writtenOut j) (fieldsWrittenOut rest)

end

theorem itemTypes_eq_some_iff {cs : List Candidate} {ts : List ValueType} :
    itemTypes cs = some ts ↔ List.Forall₂ (fun c t => c.literalType = some t) cs ts := by
  induction cs generalizing ts with
  | nil => simp [itemTypes, eq_comm]
  | cons c cs ih =>
      rw [itemTypes, List.forall₂_cons_left_iff]
      constructor
      · intro h
        split at h
        next t ts' ht hts =>
          cases h
          exact ⟨t, ts', ht, ih.1 hts, rfl⟩
        next => cases h
      · rintro ⟨t, ts', ht, hts, rfl⟩
        rw [ht, ih.2 hts]

theorem fieldTypes_eq_mapM? {lo : Option String} (fs : Entries String Candidate lo) :
    fieldTypes fs = fs.mapM? literalType := by
  induction fs with
  | nil => rfl
  | cons name above c rest ih =>
      rw [fieldTypes, Entries.mapM?, ih]
      cases c.literalType <;> cases rest.mapM? literalType <;> rfl

/-- The fields of an object of literals have the types that its own type lists. -/
theorem fieldTypes_eq_some_iff {lo : Option String} {fs : Entries String Candidate lo}
    {ts : Entries String ValueType lo} :
    fieldTypes fs = some ts ↔ fs.map literalType = ts.map some := by
  rw [fieldTypes_eq_mapM?, Entries.mapM?_eq_some_iff]

theorem LiteralOnly.exists_literalType {c : Candidate} (h : c.LiteralOnly) :
    ∃ t, c.literalType = some t := by
  induction h with
  | literal t => exact ⟨t, rfl⟩
  | @tuple cs _ ih =>
      have hitems : ∃ ts, itemTypes cs = some ts := by
        clear * - ih
        induction cs with
        | nil => exact ⟨[], rfl⟩
        | cons c cs ihs =>
            obtain ⟨t, ht⟩ := ih c List.mem_cons_self
            obtain ⟨ts, hts⟩ := ihs fun d hd => ih d (List.mem_cons_of_mem c hd)
            exact ⟨t :: ts, by rw [itemTypes, ht, hts]⟩
      obtain ⟨ts, hts⟩ := hitems
      exact ⟨.tuple ts, by rw [literalType, hts]; rfl⟩
  | @object fs _ ih =>
      obtain ⟨ts, hts⟩ := Entries.exists_mapM?_eq_some fun name c hc => ih name c hc
      exact ⟨.object ts, by rw [literalType, fieldTypes_eq_mapM?, hts]; rfl⟩

/-- Written in literals, tuples and objects only, and of the type as a whole. -/
def HasType (c : Candidate) (t : ValueType) : Prop := c.LiteralOnly ∧ c.literalType = some t

/-- The fields of an object have the types that its type lists. -/
structure FieldsHaveTypes (fs : Entries String Candidate none)
    (ts : Entries String ValueType none) : Prop where
  keys : fs.keys = ts.keys
  values : List.Forall₂ HasType fs.values ts.values
  get? : ∀ name, Option.Rel HasType (fs.get? name) (ts.get? name)

theorem fieldsHaveTypes_of_fieldTypes {fs : Entries String Candidate none}
    {ts : Entries String ValueType none}
    (h : ∀ name c, fs.get? name = some c → LiteralOnly c) (hts : fieldTypes fs = some ts) :
    FieldsHaveTypes fs ts := by
  have hmap : fs.map literalType = ts.map some := fieldTypes_eq_some_iff.1 hts
  refine ⟨?_, ?_, fun name => ?_⟩
  · simpa using congrArg Entries.keys hmap
  · have hvalues : fs.values.map literalType = ts.values.map some := by
      simpa using congrArg Entries.values hmap
    have htypes : List.Forall₂ (fun c t => c.literalType = some t) fs.values ts.values := by
      rw [← List.forall₂_eq_eq_eq, List.forall₂_map_left_iff, List.forall₂_map_right_iff] at hvalues
      exact hvalues
    refine (List.forall₂_and_left _ _).2 ⟨fun c hc => ?_, htypes⟩
    obtain ⟨name, hname⟩ := Entries.mem_values_iff.1 hc
    exact h name c hname
  · have hget : (fs.get? name).map literalType = (ts.get? name).map some := by
      rw [← Entries.get?_map, hmap, Entries.get?_map]
    cases hc : fs.get? name with
    | none =>
        rw [hc] at hget
        cases ht : ts.get? name with
        | none => exact .none
        | some t => simp [ht] at hget
    | some c =>
        rw [hc] at hget
        cases ht : ts.get? name with
        | none => simp [ht] at hget
        | some t =>
            have htype : c.literalType = some t := by simpa [ht] using hget
            exact .some ⟨h name c hc, htype⟩

/-- A literal has the two forms: a type, or items or fields with the types of its type. -/
theorem HasType.forms {c : Candidate} {t : ValueType} (h : c.HasType t) :
    c = literal t ∨
      (∃ cs ts, c = tuple cs ∧ t = .tuple ts ∧ List.Forall₂ HasType cs ts) ∨
      ∃ fs ts, c = object fs ∧ t = .object ts ∧ FieldsHaveTypes fs ts := by
  obtain ⟨hliteral, htype⟩ := h
  cases hliteral with
  | literal s =>
      cases htype
      exact .inl rfl
  | @tuple cs hcs =>
      rw [literalType, Option.map_eq_some_iff] at htype
      obtain ⟨ts, hts, rfl⟩ := htype
      have hitems := (List.forall₂_and_left _ _).2 ⟨hcs, itemTypes_eq_some_iff.1 hts⟩
      exact .inr (.inl ⟨cs, ts, rfl, rfl, hitems⟩)
  | @object fs hfs =>
      rw [literalType, Option.map_eq_some_iff] at htype
      obtain ⟨ts, hts, rfl⟩ := htype
      exact .inr (.inr ⟨fs, ts, rfl, rfl, fieldsHaveTypes_of_fieldTypes hfs hts⟩)

end Candidate

namespace Constraint

open Candidate (HasType FieldsHaveTypes)

/-- The constraints of a set judge a literal in both forms alike. -/
def Agree (vs : List Constraint) : Prop :=
  ∀ v ∈ vs, ∀ c t, HasType c t → v.accepts c = v.accepts (.literal t)

theorem Agree.setAccepts_eq {vs : List Constraint} (h : Agree vs) {c : Candidate} {t : ValueType}
    (hc : HasType c t) : setAccepts vs c = setAccepts vs (.literal t) := by
  induction vs with
  | nil => rfl
  | cons v vs ih =>
      have hv : v.accepts c = v.accepts (.literal t) := h v List.mem_cons_self c t hc
      have hvs := ih fun w hw => h w (List.mem_cons_of_mem v hw)
      rw [setAccepts, setAccepts, hv, hvs]

/-- A test that does not tell the two forms apart gives one answer for all items and for all types
of items. -/
theorem all_eq_all_types {f : Candidate → Bool} (hf : ∀ c t, HasType c t → f c = f (.literal t))
    {cs : List Candidate} {ts : List ValueType} (hcs : List.Forall₂ HasType cs ts) :
    cs.all f = (ts.map .literal).all f := by
  induction hcs with
  | nil => rfl
  | cons hc _ ih => rw [List.all_cons, List.map_cons, List.all_cons, hf _ _ hc, ih]

theorem positionsAccept_eq {vss : List (List Constraint)} (h : ∀ vs ∈ vss, Agree vs)
    {cs : List Candidate} {ts : List ValueType} (hcs : List.Forall₂ HasType cs ts) :
    positionsAccept vss cs = positionsAccept vss (ts.map .literal) := by
  induction vss generalizing cs ts with
  | nil => cases hcs <;> rfl
  | cons vs vss ih =>
      cases hcs with
      | nil => rfl
      | cons hc hcs =>
          have hfirst := (h vs List.mem_cons_self).setAccepts_eq hc
          have hothers := ih (fun ws hws => h ws (List.mem_cons_of_mem vs hws)) hcs
          rw [List.map_cons, positionsAccept, positionsAccept, hfirst, hothers]

theorem attributesAccept_eq {lo : Option String}
    {as : Entries String (ObjectAttribute (List Constraint)) lo}
    (h : ∀ name a, as.get? name = some a → Agree a.constraints)
    {fs : Entries String Candidate none} {ts : Entries String ValueType none}
    (hfs : FieldsHaveTypes fs ts) :
    attributesAccept fs as = attributesAccept (ts.map .literal) as := by
  induction as with
  | nil => rfl
  | cons name above a rest ih =>
      obtain ⟨vs, isOptional⟩ := a
      obtain ⟨hvs, hrest⟩ := Entries.forall_get?_cons.1 h
      rw [attributesAccept, attributesAccept, ih hrest, Entries.get?_map]
      have hname := hfs.get? name
      generalize fs.get? name = c, ts.get? name = t at hname
      cases hname with
      | none => rfl
      | some hc => simp only [Option.map_some, hvs.setAccepts_eq hc]

/-- A constraint judges a literal in both forms alike. -/
theorem accepts_of_hasType (v : Constraint) {c : Candidate} {t : ValueType} (h : HasType c t) :
    v.accepts c = v.accepts (.literal t) := by
  induction v using Constraint.induct generalizing c t with
  | literal s =>
      have htype : (Candidate.literal t).literalType = some t := rfl
      rw [accepts, accepts, h.2, htype]
  | traversal scope s =>
      obtain rfl | ⟨cs, ts, rfl, rfl, -⟩ | ⟨fs, ts, rfl, rfl, -⟩ := h.forms <;> rfl
  | uniform vs ih =>
      have hagree : Agree vs := fun v hv c t hc => ih v hv hc
      obtain rfl | ⟨cs, ts, rfl, rfl, hitems⟩ | ⟨fs, ts, rfl, rfl, -⟩ := h.forms
      · rfl
      · exact all_eq_all_types (f := setAccepts vs) (fun c t hc => hagree.setAccepts_eq hc) hitems
      · rfl
  | positional vss ih =>
      have hagree : ∀ vs ∈ vss, Agree vs := fun vs hvs v hv c t hc => ih vs hvs v hv hc
      obtain rfl | ⟨cs, ts, rfl, rfl, hitems⟩ | ⟨fs, ts, rfl, rfl, -⟩ := h.forms
      · rfl
      · exact positionsAccept_eq hagree hitems
      · rfl
  | map ks vs ihk ihv =>
      have hagree : Agree vs := fun v hv c t hc => ihv v hv hc
      obtain rfl | ⟨cs, ts, rfl, rfl, -⟩ | ⟨fs, ts, rfl, rfl, hfields⟩ := h.forms
      · rfl
      · rfl
      · -- the entries of an object have a string as their key in both forms
        have hall := all_eq_all_types (f := fun c => setAccepts ks (.literal .string) &&
          setAccepts vs c) (fun c t hc => by simp only [hagree.setAccepts_eq hc]) hfields.values
        simpa [accepts, Candidate.isDynamicLiteral, Candidate.entries?, List.all_map,
          Function.comp_def] using hall
  | object as isOpen ih =>
      have hagree : ∀ name a, as.get? name = some a → Agree a.constraints :=
        fun name a ha v hv c t hc => ih name a ha v hv hc
      obtain rfl | ⟨cs, ts, rfl, rfl, -⟩ | ⟨fs, ts, rfl, rfl, hfields⟩ := h.forms
      · rfl
      · rfl
      · have hlisted := attributesAccept_eq hagree hfields
        simp only [accepts, Candidate.isDynamicLiteral, Candidate.fields?, Bool.false_or, hlisted,
          hfields.keys, Entries.keys_map]
  | typeExpression =>
      obtain rfl | ⟨cs, ts, rfl, rfl, -⟩ | ⟨fs, ts, rfl, rfl, -⟩ := h.forms <;> rfl
  | any => rfl

end Constraint

namespace Candidate

theorem itemsWrittenOut_eq_map (js : List Json) : itemsWrittenOut js = js.map writtenOut := by
  induction js with
  | nil => rfl
  | cons j js ih => rw [itemsWrittenOut, List.map_cons, ih]

theorem fieldsWrittenOut_eq_map {lo : Option String} (fs : Entries String Json lo) :
    fieldsWrittenOut fs = fs.map writtenOut := by
  induction fs with
  | nil => rfl
  | cons name above j rest ih => rw [fieldsWrittenOut, Entries.map, ih]

/-- A value written out is a literal of the type of the value. -/
theorem hasType_writtenOut (j : Json) : (writtenOut j).HasType (.ofValue j) := by
  induction j using Json.induct with
  | null => exact ⟨.literal _, rfl⟩
  | bool b => exact ⟨.literal _, rfl⟩
  | number n => exact ⟨.literal _, rfl⟩
  | string s => exact ⟨.literal _, rfl⟩
  | array js ih =>
      have hitems : itemTypes (js.map writtenOut) = some (js.map ValueType.ofValue) := by
        rw [itemTypes_eq_some_iff, List.forall₂_map_left_iff, List.forall₂_map_right_iff,
          List.forall₂_same]
        exact fun j hj => (ih j hj).2
      rw [writtenOut, itemsWrittenOut_eq_map, ValueType.ofValue, ValueType.ofItems_eq_map]
      refine ⟨.tuple fun c hc => ?_, by rw [literalType, hitems]; rfl⟩
      obtain ⟨j, hj, rfl⟩ := List.mem_map.1 hc
      exact (ih j hj).1
  | object fs ih =>
      have hfields : fieldTypes (fs.map writtenOut) = some (fs.map ValueType.ofValue) := by
        refine fieldTypes_eq_some_iff.2 (Entries.ext_get? fun name => ?_)
        simp only [Entries.get?_map, Option.map_map]
        cases hj : fs.get? name with
        | none => rfl
        | some j => exact congrArg some (ih name j hj).2
      rw [writtenOut, fieldsWrittenOut_eq_map, ValueType.ofValue, ValueType.ofFields_eq_map]
      refine ⟨.object fun name c hc => ?_, by rw [literalType, hfields]; rfl⟩
      rw [Entries.get?_map, Option.map_eq_some_iff] at hc
      obtain ⟨j, hj, rfl⟩ := hc
      exact (ih name j hj).1

end Candidate

namespace ConstraintSet

/-- A literal that is written out in tuples and objects has a type, and of every set the same
alternative is the first to accept it as for the literal of that type. In particular this is so for
a value and the value written out. -/
theorem firstMatch_literalType :
    (∀ c : Candidate, c.LiteralOnly → ∃ t, c.literalType = some t ∧
      ∀ set : ConstraintSet, set.firstMatch c = set.firstMatch (.literal t)) ∧
    ∀ (j : Json) (set : ConstraintSet),
      set.firstMatch (.ofValue j) = set.firstMatch (.writtenOut j) := by
  have hsame : ∀ {c : Candidate} {t : ValueType}, c.HasType t → ∀ set : ConstraintSet,
      set.firstMatch c = set.firstMatch (.literal t) := by
    intro c t h set
    have haccepts : (fun v : Constraint => v.accepts c) = fun v => v.accepts (.literal t) :=
      funext fun v => v.accepts_of_hasType h
    rw [firstMatch, firstMatch, haccepts]
  refine ⟨fun c hc => ?_, fun j set => ?_⟩
  · obtain ⟨t, ht⟩ := hc.exists_literalType
    exact ⟨t, ht, hsame ⟨hc, ht⟩⟩
  · exact (hsame (Candidate.hasType_writtenOut j) set).symm

/-- A list of a number and a string is no string, but a list of numbers and strings. -/
theorem firstMatch_literalType_tuple :
    (Candidate.tuple [.literal .number, .literal .string]).LiteralOnly ∧
      ∃ t, (Candidate.tuple [.literal .number, .literal .string]).literalType = some t ∧
        firstMatch [.literal .string, .uniform [.literal .number, .literal .string]]
          (.tuple [.literal .number, .literal .string]) = some 1 ∧
        firstMatch [.literal .string, .uniform [.literal .number, .literal .string]]
          (.literal t) = some 1 := by
  have hliteral : (Candidate.tuple [.literal .number, .literal .string]).LiteralOnly := by
    refine .tuple fun c hc => ?_
    obtain rfl | rfl : c = .literal .number ∨ c = .literal .string := by simpa using hc
    · exact .literal _
    · exact .literal _
  obtain ⟨t, ht, hsame⟩ := firstMatch_literalType.1 _ hliteral
  have hfirst : firstMatch [.literal .string, .uniform [.literal .number, .literal .string]]
      (.tuple [.literal .number, .literal .string]) = some 1 := by decide
  exact ⟨hliteral, t, ht, hfirst, (hsame _).symm.trans hfirst⟩

end ConstraintSet

end ConfigSchema
