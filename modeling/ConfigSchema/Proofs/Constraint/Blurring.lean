import ConfigSchema.Proofs.Constraint.Structural
import ConfigSchema.Proofs.ValueType.Blurring

/-!
Candidates of which less is known. Some parts of the types in a candidate, at any depth, are replaced
by `dynamic`. A literal may lose its shape that way, while the constraint goes on into the parts that
it had. Main statement: what satisfied a set satisfies it when less is known, if no map is written
out.
-/

namespace ConfigSchema

/-- Lists whose items answer to each other have partners that answer to each other. -/
theorem exists_forall₂ {α β α' β' : Type} {L : α → β → Prop} {L' : α' → β' → Prop}
    {R : β → β' → Prop} {as : List α} {as' : List α'} {bs : List β}
    (h : List.Forall₂ (fun a a' => ∀ {b}, L a b → ∃ b', L' a' b' ∧ R b b') as as')
    (hL : List.Forall₂ L as bs) : ∃ bs', List.Forall₂ L' as' bs' ∧ List.Forall₂ R bs bs' := by
  induction h generalizing bs with
  | nil =>
      cases hL
      exact ⟨[], .nil, .nil⟩
  | cons hhead _ ih =>
      cases hL with
      | cons hb hbs =>
          obtain ⟨b', hb', hbb'⟩ := hhead hb
          obtain ⟨bs', hbs', hrest⟩ := ih hbs
          exact ⟨b' :: bs', .cons hb' hbs', .cons hbb' hrest⟩

namespace Candidate

/-- The second candidate is the first one with less known of the types of its literals and of its
resolved references. There is no rule for maps: the type of a map that is written out is unknown as
soon as its values differ, so they may become alike when less is known of them. -/
inductive BlursTo : Candidate → Candidate → Prop
  | literal {t t' : ValueType} : t.BlursTo t' → BlursTo (literal t) (literal t')
  | traversal (scope : Scope) {t t' : ValueType} : t.BlursTo t' →
    BlursTo (traversal (some scope) t) (traversal (some scope) t')
  | unresolved (t : ValueType) : BlursTo (traversal none t) (traversal none t)
  | typeExpression (t : ValueType) : BlursTo (typeExpression t) (typeExpression t)
  | tuple {cs cs' : List Candidate} : cs.length = cs'.length →
    (∀ (i : Nat) c c', cs[i]? = some c → cs'[i]? = some c' → BlursTo c c') →
    BlursTo (tuple cs) (tuple cs')
  | object {fs fs' : SortedMap String Candidate} : fs.SameKeys fs' →
    (∀ name c c', fs.get? name = some c → fs'.get? name = some c' → BlursTo c c') →
    BlursTo (object fs) (object fs')

theorem literalType_of_get? {fs : SortedMap String Candidate} {ts : SortedMap String ValueType}
    (h : fieldTypes fs = some ts) {name : String} {t : ValueType} (ht : ts.get? name = some t) :
    ∃ c, fs.get? name = some c ∧ c.literalType = some t := by
  have hget : (fs.map literalType).get? name = some (some t) := by
    rw [fieldTypes_eq_some_iff.1 h, Entries.get?_map, ht, Option.map_some]
  rwa [Entries.get?_map, Option.map_eq_some_iff] at hget

theorem sameKeys_of_fieldTypes {fs : SortedMap String Candidate} {ts : SortedMap String ValueType}
    (h : fieldTypes fs = some ts) : ts.SameKeys fs :=
  (Entries.SameKeys.map some ts).symm.trans
    (fieldTypes_eq_some_iff.1 h ▸ Entries.SameKeys.map literalType fs)

/-- The pairs of a candidate are its entries, or its fields under string keys, unless it is a literal
map. -/
theorem pairs?_eq_some {c : Candidate} {es : List (Candidate × Candidate)}
    (h : c.pairs? = some es) :
    (∃ u, c = literal (.map u) ∧ es = [(literal .string, literal u)]) ∨ c = map es ∨
      ∃ fs, c.fields? = some fs ∧ es = fs.values.map fun x => (literal .string, x) := by
  cases c with
  | literal t => cases t <;> simp_all [pairs?, entries?, fields?, eq_comm]
  | _ => simp_all [pairs?, entries?, fields?, eq_comm]

theorem pairs?_of_fields? {c : Candidate} {fs : SortedMap String Candidate}
    (h : c.fields? = some fs) :
    c.pairs? = some (fs.values.map fun x => (literal .string, x)) := by
  cases c with
  | object fs =>
      cases h
      rfl
  | literal t =>
      cases t with
      | object ts =>
          cases h
          rw [Entries.values_map, List.map_map]
          rfl
      | _ => cases h
  | _ => cases h

namespace BlursTo

variable {c c' : Candidate}

theorem isDynamicLiteral (h : c.BlursTo c') (hc : c.isDynamicLiteral = true) :
    c'.isDynamicLiteral = true := by
  rw [← literalType_eq_dynamic_iff] at hc ⊢
  cases h with
  | literal ht =>
      cases hc
      cases ht
      rfl
  | _ => simp [literalType] at hc

/-! What a constraint takes a candidate apart into. Either the parts are still there and blurred, or
nothing is known of the candidate any more. -/

theorem items? (h : c.BlursTo c') {cs : List Candidate} (hcs : c.items? = some cs) :
    c'.isDynamicLiteral = true ∨ ∃ cs', c'.items? = some cs' ∧ cs.length = cs'.length ∧
      ∀ (i : Nat) x x', cs[i]? = some x → cs'[i]? = some x' → x.BlursTo x' := by
  cases h with
  | tuple hlength hitems =>
      cases hcs
      exact .inr ⟨_, rfl, hlength, hitems⟩
  | literal ht =>
      cases ht with
      | unknown => exact .inl rfl
      | @tuple ts ts' hlength hts =>
          cases hcs
          refine .inr ⟨ts'.map Candidate.literal, rfl, by simpa using hlength,
            fun i x x' hx hx' => ?_⟩
          rw [List.getElem?_map, Option.map_eq_some_iff] at hx hx'
          obtain ⟨t, ht, rfl⟩ := hx
          obtain ⟨t', ht', rfl⟩ := hx'
          exact .literal (hts i t t' ht ht')
      | _ => cases hcs
  | _ => cases hcs

theorem elements? (h : c.BlursTo c') {cs : List Candidate} (hcs : c.elements? = some cs) :
    c'.isDynamicLiteral = true ∨
      ∃ cs', c'.elements? = some cs' ∧ ∀ x' ∈ cs', ∃ x ∈ cs, x.BlursTo x' := by
  obtain ⟨u, rfl, rfl⟩ | ⟨u, rfl, rfl⟩ | hitems := elements?_eq_some hcs
  · cases h with
    | literal ht =>
      cases ht with
      | unknown => exact .inl rfl
      | @list _ u' hu => exact .inr ⟨[.literal u'], rfl, by simpa using .literal hu⟩
  · cases h with
    | literal ht =>
      cases ht with
      | unknown => exact .inl rfl
      | @set _ u' hu => exact .inr ⟨[.literal u'], rfl, by simpa using .literal hu⟩
  · refine (h.items? hitems).imp_right ?_
    rintro ⟨cs', hcs', hlength, hblur⟩
    refine ⟨cs', elements?_of_items? hcs', fun x' hx' => ?_⟩
    exact ValueType.exists_mem_of_mem (R := fun x' x => BlursTo x x') hlength.symm
      (fun i x' x hi' hi => hblur i x x' hi hi') hx'

theorem fields? (h : c.BlursTo c') {fs : SortedMap String Candidate} (hfs : c.fields? = some fs) :
    c'.isDynamicLiteral = true ∨ ∃ fs', c'.fields? = some fs' ∧ fs.SameKeys fs' ∧
      ∀ name x x', fs.get? name = some x → fs'.get? name = some x' → x.BlursTo x' := by
  cases h with
  | object hkeys hfields =>
      cases hfs
      exact .inr ⟨_, rfl, hkeys, hfields⟩
  | literal ht =>
      cases ht with
      | unknown => exact .inl rfl
      | @object ts ts' hkeys hts =>
          cases hfs
          have hkeys : (ts.map Candidate.literal).SameKeys (ts'.map Candidate.literal) :=
            (Entries.SameKeys.map _ ts).trans (hkeys.trans (Entries.SameKeys.map _ ts').symm)
          refine .inr ⟨_, rfl, hkeys, fun name x x' hx hx' => ?_⟩
          rw [Entries.get?_map, Option.map_eq_some_iff] at hx hx'
          obtain ⟨t, ht, rfl⟩ := hx
          obtain ⟨t', ht', rfl⟩ := hx'
          exact .literal (hts name t t' ht ht')
      | _ => cases hfs
  | _ => cases hfs

theorem pairs? (h : c.BlursTo c') {es : List (Candidate × Candidate)} (hes : c.pairs? = some es) :
    c'.isDynamicLiteral = true ∨ ∃ es', c'.pairs? = some es' ∧
      ∀ e' ∈ es', ∃ e ∈ es, e.1.BlursTo e'.1 ∧ e.2.BlursTo e'.2 := by
  have hstring : (Candidate.literal .string).BlursTo (.literal .string) := .literal .string
  obtain ⟨u, rfl, rfl⟩ | rfl | ⟨fs, hfs, rfl⟩ := pairs?_eq_some hes
  · cases h with
    | literal ht =>
      cases ht with
      | unknown => exact .inl rfl
      | @map _ u' hu =>
          have hvalue : (Candidate.literal u).BlursTo (.literal u') := .literal hu
          exact .inr ⟨[(.literal .string, .literal u')], rfl, by simpa using ⟨hstring, hvalue⟩⟩
  · cases h
  · refine (h.fields? hfs).imp_right ?_
    rintro ⟨fs', hfs', hkeys, hblur⟩
    refine ⟨_, pairs?_of_fields? hfs', fun e' he' => ?_⟩
    obtain ⟨x', hx', rfl⟩ := List.mem_map.1 he'
    obtain ⟨name, hname'⟩ := Entries.mem_values_iff.1 hx'
    obtain ⟨x, hname⟩ := hkeys.symm.exists_get? hname'
    exact ⟨(.literal .string, x), List.mem_map_of_mem (Entries.mem_values_iff.2 ⟨name, hname⟩),
      hstring, hblur name x x' hname hname'⟩

/-- A candidate that is built from literals stays so, and its type is blurred. -/
theorem literalType (h : c.BlursTo c') {t : ValueType} (ht : c.literalType = some t) :
    ∃ t', c'.literalType = some t' ∧ t.BlursTo t' := by
  induction h generalizing t with
  | literal hblur =>
      cases ht
      exact ⟨_, rfl, hblur⟩
  | traversal => cases ht
  | unresolved => cases ht
  | typeExpression => cases ht
  | @tuple cs cs' hlength _ ih =>
      rw [Candidate.literalType, Option.map_eq_some_iff] at ht
      obtain ⟨ts, hts, rfl⟩ := ht
      obtain ⟨ts', hts', hblur⟩ := exists_forall₂ (forall₂_iff_getElem?.2 ⟨hlength, ih⟩)
        (itemTypes_eq_some_iff.1 hts)
      obtain ⟨hlength', hblur⟩ := forall₂_iff_getElem?.1 hblur
      refine ⟨.tuple ts', ?_, .tuple hlength' hblur⟩
      rw [Candidate.literalType, itemTypes_eq_some_iff.2 hts', Option.map_some]
  | @object fs fs' hkeys _ ih =>
      rw [Candidate.literalType, Option.map_eq_some_iff] at ht
      obtain ⟨ts, hts, rfl⟩ := ht
      have htypes : ∀ name c', fs'.get? name = some c' → ∃ t', c'.literalType = some t' := by
        intro name c' hc'
        obtain ⟨c, hc⟩ := hkeys.symm.exists_get? hc'
        obtain ⟨t, ht⟩ := (sameKeys_of_fieldTypes hts).symm.exists_get? hc
        obtain ⟨c'', hc'', ht⟩ := literalType_of_get? hts ht
        cases hc.symm.trans hc''
        obtain ⟨t', ht', -⟩ := ih name c c' hc hc' ht
        exact ⟨t', ht'⟩
      obtain ⟨ts', hts'⟩ := Entries.exists_mapM?_eq_some htypes
      rw [← fieldTypes_eq_mapM?] at hts'
      have hkeys' : ts.SameKeys ts' := (sameKeys_of_fieldTypes hts).trans
        (hkeys.trans (sameKeys_of_fieldTypes hts').symm)
      refine ⟨.object ts', by rw [Candidate.literalType, hts', Option.map_some],
        .object hkeys' fun name t t' ht ht' => ?_⟩
      obtain ⟨c, hc, ht⟩ := literalType_of_get? hts ht
      obtain ⟨c', hc', ht'⟩ := literalType_of_get? hts' ht'
      obtain ⟨u, hu, hblur⟩ := ih name c c' hc hc' ht
      cases ht'.symm.trans hu
      exact hblur

end BlursTo

end Candidate

open Candidate (BlursTo)

/-- Whatever the constraint accepts, it accepts when less is known of it. -/
def Constraint.Tolerant (v : Constraint) : Prop :=
  ∀ c c' : Candidate, c.BlursTo c' → v.accepts c = true → v.accepts c' = true

/-- Whatever satisfies the set satisfies it when less is known of it. -/
def ConstraintSet.Tolerant (set : ConstraintSet) : Prop :=
  ∀ c c' : Candidate, c.BlursTo c' → set.isSatisfiedBy c = true → set.isSatisfiedBy c' = true

theorem ConstraintSet.tolerant_of_alternatives {set : ConstraintSet}
    (h : ∀ v ∈ set, v.Tolerant) : set.Tolerant := by
  intro c c' hblur hc
  obtain ⟨v, hv, hvc⟩ := isSatisfiedBy_iff.1 hc
  exact isSatisfiedBy_iff.2 ⟨v, hv, h v hv c c' hblur hvc⟩

namespace Constraint

/-- By the type of the candidate as a whole, of which less is known. -/
theorem literal_tolerant (t : ValueType) : (literal t).Tolerant := by
  intro c c' h hc
  obtain ⟨s, hs, hst⟩ := literal_accepts_iff.1 hc
  obtain ⟨s', hs', hblur⟩ := h.literalType hs
  have hfits : s'.Fits t := (ValueType.fits_of_isAssignableTo hst).blur hblur (.refl t)
  exact literal_accepts_iff.2 ⟨s', hs', hfits.isAssignableTo⟩

theorem traversal_tolerant (scope : Scope) (ofType : Option ValueType) :
    (traversal scope ofType).Tolerant := by
  intro c c' h hc
  cases h with
  | traversal s ht =>
      cases ofType with
      | none => simpa [accepts] using hc
      | some expected =>
          obtain ⟨hs, hst⟩ : s = scope ∧ _ := by simpa [accepts] using hc
          have hfits := (ValueType.fits_of_isAssignableTo hst).blur ht (.refl expected)
          simpa [accepts] using ⟨hs, hfits.isAssignableTo⟩
  | _ => simp [accepts] at hc

theorem uniform_tolerant {vs : ConstraintSet} (h : vs.Tolerant) : (uniform vs).Tolerant := by
  intro c c' hblur hc
  rw [accepts_uniform_iff] at hc ⊢
  obtain hdynamic | ⟨cs, hcs, hall⟩ := hc
  · exact .inl (hblur.isDynamicLiteral hdynamic)
  · refine (hblur.elements? hcs).imp_right ?_
    rintro ⟨cs', hcs', hparts⟩
    refine ⟨cs', hcs', fun x' hx' => ?_⟩
    obtain ⟨x, hx, hxx'⟩ := hparts x' hx'
    exact h x x' hxx' (hall x hx)

theorem positional_tolerant {vss : List ConstraintSet} (h : ∀ vs ∈ vss, vs.Tolerant) :
    (positional vss).Tolerant := by
  intro c c' hblur hc
  rw [accepts_positional_iff] at hc ⊢
  obtain hdynamic | ⟨cs, hcs, hall⟩ := hc
  · exact .inl (hblur.isDynamicLiteral hdynamic)
  · refine (hblur.items? hcs).imp_right ?_
    rintro ⟨cs', hcs', hlength, hparts⟩
    rw [forall₂_iff_getElem?] at hall
    refine ⟨cs', hcs', forall₂_iff_getElem?.2 ⟨hall.1.trans hlength, fun i vs x' hvs hx' => ?_⟩⟩
    obtain ⟨x, hx⟩ := ValueType.exists_getElem? hlength.symm hx'
    exact h vs (List.mem_of_getElem? hvs) x x' (hparts i x x' hx hx') (hall.2 i vs x hvs hx)

theorem map_tolerant {ks vs : ConstraintSet} (hk : ks.Tolerant) (hv : vs.Tolerant) :
    (map ks vs).Tolerant := by
  intro c c' hblur hc
  rw [accepts_map_iff] at hc ⊢
  obtain hdynamic | ⟨es, hes, hall⟩ := hc
  · exact .inl (hblur.isDynamicLiteral hdynamic)
  · refine (hblur.pairs? hes).imp_right ?_
    rintro ⟨es', hes', hparts⟩
    refine ⟨es', hes', fun e' he' => ?_⟩
    obtain ⟨e, he, hkey, hvalue⟩ := hparts e' he'
    exact ⟨hk _ _ hkey (hall e he).1, hv _ _ hvalue (hall e he).2⟩

theorem object_tolerant {fs : SortedMap String (ObjectAttribute ConstraintSet)} {isOpen : Bool}
    (h : ∀ name a, fs.get? name = some a → ConstraintSet.Tolerant a.constraints) :
    (object fs isOpen).Tolerant := by
  intro c c' hblur hc
  rw [accepts_object_iff] at hc ⊢
  obtain hdynamic | ⟨present, hpresent, hrequired, hlisted, hother⟩ := hc
  · exact .inl (hblur.isDynamicLiteral hdynamic)
  · refine (hblur.fields? hpresent).imp_right ?_
    rintro ⟨present', hpresent', hkeys, hparts⟩
    refine ⟨present', hpresent', fun name a ha hmandatory => ?_, fun name a x' ha hx' => ?_,
      fun name x' hx' hnone => ?_⟩
    · obtain ⟨x, hx⟩ := hrequired name a ha hmandatory
      exact hkeys.exists_get? hx
    · obtain ⟨x, hx⟩ := hkeys.symm.exists_get? hx'
      exact h name a ha x x' (hparts name x x' hx hx') (hlisted name a x ha hx)
    · obtain ⟨x, hx⟩ := hkeys.symm.exists_get? hx'
      exact hother name x hx hnone

theorem typeExpression_tolerant : typeExpression.Tolerant := by
  intro c c' h hc
  cases h with
  | typeExpression t => exact hc
  | _ => simp [accepts] at hc

theorem tolerant (v : Constraint) : v.Tolerant := by
  induction v using Constraint.induct with
  | literal t => exact literal_tolerant t
  | traversal scope t => exact traversal_tolerant scope t
  | uniform vs ih => exact uniform_tolerant (ConstraintSet.tolerant_of_alternatives ih)
  | positional vss ih =>
      exact positional_tolerant fun vs hvs => ConstraintSet.tolerant_of_alternatives (ih vs hvs)
  | map ks vs ihk ihv =>
      exact map_tolerant (ConstraintSet.tolerant_of_alternatives ihk)
        (ConstraintSet.tolerant_of_alternatives ihv)
  | object fs isOpen ih =>
      exact object_tolerant fun name a ha => ConstraintSet.tolerant_of_alternatives (ih name a ha)
  | typeExpression => exact typeExpression_tolerant
  | any => exact fun _ _ _ _ => rfl

end Constraint

namespace ConstraintSet

/-- A candidate that satisfies a set satisfies it when less is known of the types in it. -/
theorem satisfied_of_blursTo {set : ConstraintSet} {c c' : Candidate} (h : c.BlursTo c')
    (hc : set.isSatisfiedBy c = true) : set.isSatisfiedBy c' = true :=
  tolerant_of_alternatives (fun v _ => v.tolerant) c c' h hc

/-- A literal loses its shape, and the reference beside it the type of its elements; positions with
constraints of their own are still taken to fit. -/
theorem satisfied_of_blursTo_lostShape :
    (Candidate.tuple [.traversal (some .resource) (.list .string),
        .literal (.tuple [.string, .number])]).BlursTo
      (.tuple [.traversal (some .resource) (.list .dynamic), .literal .dynamic]) ∧
    isSatisfiedBy [.positional [[.traversal .resource (some (.list .string))],
        [.positional [[.literal .string], [.literal .number]]]]]
      (.tuple [.traversal (some .resource) (.list .string),
        .literal (.tuple [.string, .number])]) = true ∧
    isSatisfiedBy [.positional [[.traversal .resource (some (.list .string))],
        [.positional [[.literal .string], [.literal .number]]]]]
      (.tuple [.traversal (some .resource) (.list .dynamic), .literal .dynamic]) = true := by
  have hblur : (Candidate.tuple [.traversal (some .resource) (.list .string),
        .literal (.tuple [.string, .number])]).BlursTo
      (.tuple [.traversal (some .resource) (.list .dynamic), .literal .dynamic]) := by
    refine .tuple rfl fun i c c' hc hc' => ?_
    match i with
    | 0 =>
        cases hc
        cases hc'
        exact .traversal .resource (.list (.unknown .string))
    | 1 =>
        cases hc
        cases hc'
        exact .literal (.unknown _)
    | i + 2 => cases hc
  have hbefore : isSatisfiedBy [.positional [[.traversal .resource (some (.list .string))],
        [.positional [[.literal .string], [.literal .number]]]]]
      (.tuple [.traversal (some .resource) (.list .string),
        .literal (.tuple [.string, .number])]) = true := by decide
  exact ⟨hblur, hbefore, satisfied_of_blursTo hblur hbefore⟩

/-- The values of a map differ in what is not known any more, so it no longer passes for mixed. -/
example :
    isSatisfiedBy [.literal (.map .string)] (.map [(.literal .string, .literal (.list .string)),
        (.literal .string, .literal (.list .number))]) = true ∧
      isSatisfiedBy [.literal (.map .string)] (.map [(.literal .string, .literal (.list .dynamic)),
        (.literal .string, .literal (.list .dynamic))]) = false := by
  decide

end ConstraintSet

end ConfigSchema
