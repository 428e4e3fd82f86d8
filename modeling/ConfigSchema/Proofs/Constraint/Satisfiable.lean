import ConfigSchema.Proofs.Constraint.Nesting
import ConfigSchema.Proofs.Constraint.Structural
import ConfigSchema.Proofs.ValueType.Order

/-!
Constraint sets that something satisfies. A candidate is built along one alternative of each set that
is met, so it is enough that none of these sets is empty; wherever a type is left open, a string
stands in for it. Main statement: `ConstraintSet.exists_known_isSatisfiedBy`, where no set is empty at
any depth, a candidate of which everything is known satisfies the set.
-/

namespace ConfigSchema

/-- Partners for the entries of a list make a list of partners. -/
theorem exists_forall₂_of_forall_mem {α β : Type} {R : α → β → Prop} {as : List α}
    (h : ∀ a ∈ as, ∃ b, R a b) : ∃ bs, List.Forall₂ R as bs := by
  induction as with
  | nil => exact ⟨[], .nil⟩
  | cons a as ih =>
      obtain ⟨⟨b, hb⟩, hrest⟩ := List.forall_mem_cons.1 h
      obtain ⟨bs, hbs⟩ := ih hrest
      exact ⟨b :: bs, .cons hb hbs⟩

/-- A type of which everything is known fits each declared type. -/
theorem ValueType.exists_known_fits (t : ValueType) : ∃ s : ValueType, s.Known ∧ s.Fits t := by
  induction t using ValueType.induct with
  | dynamic => exact ⟨string, .string, .toDynamic string⟩
  | string => exact ⟨string, .string, .string⟩
  | number => exact ⟨number, .number, .number⟩
  | bool => exact ⟨bool, .bool, .bool⟩
  | list t ih =>
      obtain ⟨s, hs, hst⟩ := ih
      exact ⟨list s, .list hs, .list hst⟩
  | set t ih =>
      obtain ⟨s, hs, hst⟩ := ih
      exact ⟨set s, .set hs, .set hst⟩
  | map t ih =>
      obtain ⟨s, hs, hst⟩ := ih
      exact ⟨map s, .map hs, .map hst⟩
  | tuple ts ih =>
      obtain ⟨ss, hss⟩ := exists_forall₂_of_forall_mem ih
      refine ⟨tuple ss, .tuple fun s hs => ?_, ?_⟩
      · obtain ⟨t, -, hknown, -⟩ := exists_mem_of_forall₂ hss.flip hs
        exact hknown
      · obtain ⟨hlength, hparts⟩ := forall₂_iff_getElem?.1 hss
        exact .tuple hlength.symm fun i s t hs ht => (hparts i t s ht hs).2
  | object gs ih =>
      have hfields : ∀ name ∈ gs.keys, ∃ s, ∃ t, gs.get? name = some t ∧ s.Known ∧ Fits s t := by
        intro name hname
        obtain ⟨t, ht⟩ := Entries.mem_keys_iff.1 hname
        obtain ⟨s, hs⟩ := ih name t ht
        exact ⟨s, t, ht, hs⟩
      obtain ⟨fs, hkeys, hfs⟩ := Entries.exists_of_forall_mem hfields
      refine ⟨object fs, .object fun name s hs => ?_, .object (fun name => ⟨fun hname => ?_,
        fun hname => ?_⟩) fun name s t hs ht => ?_⟩
      · obtain ⟨t, -, hknown, -⟩ := hfs name s hs
        exact hknown
      · obtain ⟨s, hs⟩ := Entries.contains_iff.1 hname
        obtain ⟨t, ht, -⟩ := hfs name s hs
        exact Entries.contains_iff.2 ⟨t, ht⟩
      · exact hkeys name (Entries.mem_keys_iff.2 (Entries.contains_iff.1 hname))
      · obtain ⟨t', ht', -, hst⟩ := hfs name s hs
        cases ht.symm.trans ht'
        exact hst

namespace Candidate

/-- The types of all literals, references and type expressions in the candidate are known
throughout. -/
inductive Known : Candidate → Prop
  | literal {t : ValueType} : t.Known → Known (literal t)
  | traversal {scope : Option Scope} {t : ValueType} : t.Known → Known (traversal scope t)
  | typeExpression {t : ValueType} : t.Known → Known (typeExpression t)
  | tuple {cs : List Candidate} : (∀ c ∈ cs, Known c) → Known (tuple cs)
  | map {es : List (Candidate × Candidate)} :
    (∀ e ∈ es, Known e.1) → (∀ e ∈ es, Known e.2) → Known (map es)
  | object {fs : SortedMap String Candidate} :
    (∀ name c, fs.get? name = some c → Known c) → Known (object fs)

end Candidate

namespace Constraint

open ConstraintSet (allSets isSatisfiedBy_iff)

/-- A set is satisfied by way of its first alternative. -/
theorem exists_known_of_alternatives {set : ConstraintSet} (hset : ∀ s ∈ set.allSets, s ≠ [])
    (h : ∀ v ∈ set, (∀ s ∈ v.nestedSets, s ≠ []) → ∃ c : Candidate, c.Known ∧ v.accepts c = true) :
    ∃ c : Candidate, c.Known ∧ set.isSatisfiedBy c = true := by
  obtain ⟨v, vs, rfl⟩ := List.exists_cons_of_ne_nil (hset set List.mem_cons_self)
  obtain ⟨c, hc, hv⟩ := h v List.mem_cons_self fun s hs =>
    hset s (ConstraintSet.mem_allSets_of_mem_nestedSets List.mem_cons_self hs)
  exact ⟨c, hc, isSatisfiedBy_iff.2 ⟨v, List.mem_cons_self, hv⟩⟩

/-- A constraint without empty sets in it accepts a candidate of which everything is known. -/
theorem exists_known_accepts {v : Constraint} (h : ∀ s ∈ v.nestedSets, s ≠ []) :
    ∃ c : Candidate, c.Known ∧ v.accepts c = true := by
  induction v using Constraint.induct with
  | literal t =>
      obtain ⟨s, hs, hst⟩ := t.exists_known_fits
      exact ⟨.literal s, .literal hs, hst.isAssignableTo⟩
  | traversal scope ofType =>
      cases ofType with
      | none => exact ⟨.traversal (some scope) .string, .traversal .string, by simp [accepts]⟩
      | some t =>
          obtain ⟨s, hs, hst⟩ := t.exists_known_fits
          exact ⟨.traversal (some scope) s, .traversal hs, by simp [accepts, hst.isAssignableTo]⟩
  | uniform vs _ =>
      -- a tuple or a map may be empty, so nothing is asked of what would stand in it
      exact ⟨.tuple [], .tuple (by simp), accepts_uniform_iff.2 (.inr ⟨[], rfl, by simp⟩)⟩
  | positional vss ih =>
      have hpositions : ∀ vs ∈ vss, ∃ c : Candidate, c.Known ∧
          ConstraintSet.isSatisfiedBy vs c = true := fun vs hvs =>
        exists_known_of_alternatives (fun s hs => h s (mem_setsOfPositions.2 ⟨vs, hvs, hs⟩))
          fun v hv => ih vs hvs v hv
      obtain ⟨cs, hcs⟩ := exists_forall₂_of_forall_mem hpositions
      refine ⟨.tuple cs, .tuple fun c hc => ?_, accepts_positional_iff.2 (.inr ⟨cs, rfl, ?_⟩)⟩
      · obtain ⟨vs, -, hknown, -⟩ := exists_mem_of_forall₂ hcs.flip hc
        exact hknown
      · exact hcs.imp fun _ _ hc => hc.2
  | map ks vs _ _ =>
      exact ⟨.map [], .map (by simp) (by simp), accepts_map_iff.2 (.inr ⟨[], rfl, by simp⟩)⟩
  | object fs isOpen ih =>
      have hattributes : ∀ name ∈ fs.keys, ∃ c : Candidate, ∃ a, fs.get? name = some a ∧ c.Known ∧
          ConstraintSet.isSatisfiedBy a.constraints c = true := by
        intro name hname
        obtain ⟨a, ha⟩ := Entries.mem_keys_iff.1 hname
        obtain ⟨c, hc⟩ := exists_known_of_alternatives
          (fun s hs => h s (mem_setsOfAttributes.2 ⟨name, a, ha, hs⟩)) fun v hv => ih name a ha v hv
        exact ⟨c, a, ha, hc⟩
      -- every listed attribute is given a value, also those that might be left out
      obtain ⟨present, hkeys, hpresent⟩ := Entries.exists_of_forall_mem hattributes
      refine ⟨.object present, .object fun name c hc => ?_, accepts_object_iff.2 (.inr ⟨present, rfl,
        fun name a ha _ => ?_, fun name a c ha hc => ?_, fun name c hc hnone => ?_⟩)⟩
      · obtain ⟨a, -, hknown, -⟩ := hpresent name c hc
        exact hknown
      · exact Entries.contains_iff.1 (hkeys name (Entries.mem_keys_iff.2 ⟨a, ha⟩))
      · obtain ⟨a', ha', -, hsatisfied⟩ := hpresent name c hc
        cases ha.symm.trans ha'
        exact hsatisfied
      · obtain ⟨a, ha, -⟩ := hpresent name c hc
        cases hnone.symm.trans ha
  | typeExpression => exact ⟨.typeExpression .string, .typeExpression .string, rfl⟩
  | any => exact ⟨.literal .string, .literal .string, rfl⟩

end Constraint

namespace ConstraintSet

/-- Unless a set in it is empty, a constraint set is satisfied by a candidate in which no type is
left open. -/
theorem exists_known_isSatisfiedBy {set : ConstraintSet} (h : ∀ s ∈ set.allSets, s ≠ []) :
    ∃ c : Candidate, c.Known ∧ set.isSatisfiedBy c = true :=
  Constraint.exists_known_of_alternatives h fun _ _ => Constraint.exists_known_accepts

/-- Two positions, the second of them an object with an attribute that has to be there. -/
theorem exists_known_isSatisfiedBy_pair :
    (∀ s ∈ allSets [.positional [[.literal (.list .dynamic)], [.closedObject
        [("role", ⟨[.traversal .resource (some (.map .dynamic))], false⟩)]]]], s ≠ []) ∧
      ∃ c : Candidate, c.Known ∧ isSatisfiedBy [.positional [[.literal (.list .dynamic)],
        [.closedObject [("role", ⟨[.traversal .resource (some (.map .dynamic))], false⟩)]]]]
          c = true := by
  have hnonempty : ∀ s ∈ allSets [.positional [[.literal (.list .dynamic)], [.closedObject
      [("role", ⟨[.traversal .resource (some (.map .dynamic))], false⟩)]]]], s ≠ [] := by decide
  exact ⟨hnonempty, exists_known_isSatisfiedBy hnonempty⟩

end ConstraintSet

end ConfigSchema
