import ConfigSchema.Proofs.Constraint.MapLiterals
import ConfigSchema.Proofs.Constraint.Nesting

/-!
References whose root is not known, inside of other candidates. A constraint that says what it admits
at every depth looks at every part of a candidate, be it through the type of a literal or part by
part. Main statement: it refuses each candidate with such a reference in it.
-/

namespace ConfigSchema

namespace Candidate

/-- An item of a tuple, a key or a value of a map, or a field of an object. -/
inductive IsPartOf : Candidate → Candidate → Prop
  | item {c : Candidate} {cs : List Candidate} : c ∈ cs → IsPartOf c (tuple cs)
  | key {e : Candidate × Candidate} {es : List (Candidate × Candidate)} :
    e ∈ es → IsPartOf e.1 (map es)
  | value {e : Candidate × Candidate} {es : List (Candidate × Candidate)} :
    e ∈ es → IsPartOf e.2 (map es)
  | field {name : String} {c : Candidate} {fs : SortedMap String Candidate} :
    fs.get? name = some c → IsPartOf c (object fs)

/-- The candidate is a reference whose root is not known, or has one in it at some depth. -/
inductive HasUnresolved : Candidate → Prop
  | self (t : ValueType) : HasUnresolved (traversal none t)
  | inside {p c : Candidate} : p.IsPartOf c → HasUnresolved p → HasUnresolved c

/-- All parts of a candidate that is built from literals are built from literals. -/
theorem IsPartOf.exists_literalType {p c : Candidate} (hp : p.IsPartOf c) {t : ValueType}
    (ht : c.literalType = some t) : ∃ s, p.literalType = some s := by
  cases hp with
  | item hmem =>
      rw [literalType, Option.map_eq_some_iff] at ht
      obtain ⟨ts, hts, -⟩ := ht
      obtain ⟨s, -, hs⟩ := exists_mem_of_forall₂ (itemTypes_eq_some_iff.1 hts) hmem
      exact ⟨s, hs⟩
  | key hmem =>
      rw [literalType, Option.map_eq_some_iff] at ht
      obtain ⟨ts, hts, -⟩ := ht
      obtain ⟨s, hs, -⟩ :=
        Constraint.literal_accepts_iff.1 (exists_entryTypes_iff.1 ⟨ts, hts⟩ _ hmem).1
      exact ⟨s, hs⟩
  | value hmem =>
      rw [literalType, Option.map_eq_some_iff] at ht
      obtain ⟨ts, hts, -⟩ := ht
      exact (exists_entryTypes_iff.1 ⟨ts, hts⟩ _ hmem).2
  | field hname =>
      rw [literalType, Option.map_eq_some_iff] at ht
      obtain ⟨ts, hts, -⟩ := ht
      obtain ⟨s, -, hs⟩ := (Entries.map_eq_map_iff.1 (fieldTypes_eq_some_iff.1 hts)).1 _ _ hname
      exact ⟨s, hs⟩

end Candidate

/-- The constraint accepts anything, or any value of an attribute that it does not list. -/
def Constraint.isOpenEnded : Constraint → Bool
  | any => true
  | object _ isOpen => isOpen
  | _ => false

namespace ConstraintSet

open Candidate (IsPartOf HasUnresolved)

/-- No alternative is open-ended, neither in the set nor in one that is nested in it. -/
def IsClosed (set : ConstraintSet) : Prop :=
  ∀ s ∈ set.allSets, ∀ v ∈ s, v.isOpenEnded = false

instance (set : ConstraintSet) : Decidable set.IsClosed :=
  inferInstanceAs (Decidable (∀ s ∈ set.allSets, ∀ v ∈ s, v.isOpenEnded = false))

theorem IsClosed.alternative {set : ConstraintSet} (h : set.IsClosed) {v : Constraint}
    (hv : v ∈ set) : v.isOpenEnded = false :=
  h set List.mem_cons_self v hv

theorem IsClosed.of_nested {set vs : ConstraintSet} (h : set.IsClosed)
    (hnested : ∀ s : ConstraintSet, s.NestedIn vs → s.NestedIn set) : vs.IsClosed := by
  intro s hs
  exact h s (mem_allSets_iff.2 (hnested s (mem_allSets_iff.1 hs)))

/-- What is in a candidate that satisfies a closed set satisfies one, too: a nested set, or that of
all literals. -/
theorem exists_isSatisfiedBy_of_isPartOf {set : ConstraintSet} {p c : Candidate}
    (hset : set.IsClosed) (hc : set.isSatisfiedBy c = true) (hp : p.IsPartOf c) :
    ∃ vs : ConstraintSet, vs.IsClosed ∧ vs.isSatisfiedBy p = true := by
  obtain ⟨v, hv, hvc⟩ := isSatisfiedBy_iff.1 hc
  cases v with
  | literal t =>
      obtain ⟨s, hs, -⟩ := Constraint.literal_accepts_iff.1 hvc
      obtain ⟨u, hu⟩ := hp.exists_literalType hs
      refine ⟨[.literal .dynamic], by decide, ?_⟩
      rw [Constraint.isSatisfiedBy_singleton]
      exact Constraint.literal_accepts_iff.2 ⟨u, hu, ValueType.isAssignableTo_dynamic u⟩
  | traversal scope ofType => cases hp <;> simp [Constraint.accepts] at hvc
  | uniform vs =>
      have hvs : IsClosed vs := hset.of_nested fun s => .uniform hv
      obtain hdynamic | ⟨cs, hcs, hall⟩ := Constraint.accepts_uniform_iff.1 hvc
      · cases hp <;> cases hdynamic
      · cases hp with
        | item hmem =>
            cases hcs
            exact ⟨vs, hvs, hall p hmem⟩
        | key | value | field => cases hcs
  | positional vss =>
      obtain hdynamic | ⟨cs, hcs, hall⟩ := Constraint.accepts_positional_iff.1 hvc
      · cases hp <;> cases hdynamic
      · cases hp with
        | item hmem =>
            cases hcs
            obtain ⟨vs, hvs, hsatisfied⟩ := exists_mem_of_forall₂ hall.flip hmem
            exact ⟨vs, hset.of_nested fun s => .positional hv hvs, hsatisfied⟩
        | key | value | field => cases hcs
  | map ks vs =>
      have hks : IsClosed ks := hset.of_nested fun s => .key hv
      have hvs : IsClosed vs := hset.of_nested fun s => .value hv
      obtain hdynamic | ⟨es, hes, hall⟩ := Constraint.accepts_map_iff.1 hvc
      · cases hp <;> cases hdynamic
      · cases hp with
        | item => cases hes
        | key hmem =>
            cases hes
            exact ⟨ks, hks, (hall _ hmem).1⟩
        | value hmem =>
            cases hes
            exact ⟨vs, hvs, (hall _ hmem).2⟩
        | field hname =>
            cases hes
            have hmem := List.mem_map_of_mem (f := fun x => (Candidate.literal .string, x))
              (Entries.mem_values_iff.2 ⟨_, hname⟩)
            exact ⟨vs, hvs, (hall _ hmem).2⟩
  | object fs isOpen =>
      obtain hdynamic | ⟨present, hpresent, -, hlisted, hother⟩ :=
        Constraint.accepts_object_iff.1 hvc
      · cases hp <;> cases hdynamic
      · cases hp with
        | item | key | value => cases hpresent
        | @field name _ _ hname =>
            cases hpresent
            cases ha : fs.get? name with
            | some a =>
                exact ⟨a.constraints, hset.of_nested fun s => .field hv ha,
                  hlisted name a p ha hname⟩
            | none =>
                -- an attribute that is not listed is admitted by an open object only
                obtain rfl := hother name p hname ha
                cases hset.alternative hv
  | typeExpression => cases hp <;> simp [Constraint.accepts] at hvc
  | any => cases hset.alternative hv

/-- A reference whose root is not known satisfies no closed set by itself. -/
theorem not_isSatisfiedBy_unresolved {set : ConstraintSet} (hset : set.IsClosed) (t : ValueType) :
    ¬set.isSatisfiedBy (.traversal none t) = true := by
  intro h
  obtain ⟨v, hv, hvc⟩ := isSatisfiedBy_iff.1 h
  cases v with
  | any => cases hset.alternative hv
  | _ => simp [Constraint.accepts, Candidate.literalType, Candidate.isDynamicLiteral,
      Candidate.items?, Candidate.entries?, Candidate.fields?] at hvc

/-- No reference whose root is not known passes a closed set, however deep it is in the candidate. -/
theorem refuses_of_hasUnresolved {set : ConstraintSet} {c : Candidate} (hset : set.IsClosed)
    (hc : c.HasUnresolved) : set.isSatisfiedBy c = false := by
  rw [← Bool.not_eq_true]
  induction hc generalizing set with
  | self t => exact not_isSatisfiedBy_unresolved hset t
  | inside hp _ ih =>
      intro hsatisfied
      obtain ⟨vs, hvs, hpart⟩ := exists_isSatisfiedBy_of_isPartOf hset hsatisfied hp
      exact ih hvs hpart

/-- The reference is a value of a map, and the map an item of a tuple. -/
theorem refuses_of_hasUnresolved_portMap :
    IsClosed [.literal .dynamic, .uniform [.map [.literal .string]
        [.literal .number, .traversal .resource none]]] ∧
      (Candidate.tuple [.map [(.literal .string, .literal .number),
        (.literal .string, .unresolved)]]).HasUnresolved ∧
      isSatisfiedBy [.literal .dynamic, .uniform [.map [.literal .string]
        [.literal .number, .traversal .resource none]]]
          (.tuple [.map [(.literal .string, .literal .number),
            (.literal .string, .unresolved)]]) = false := by
  have hclosed : IsClosed [.literal .dynamic, .uniform [.map [.literal .string]
      [.literal .number, .traversal .resource none]]] := by decide
  have hunresolved : (Candidate.tuple [.map [(.literal .string, .literal .number),
      (.literal .string, .unresolved)]]).HasUnresolved :=
    .inside (.item List.mem_cons_self)
      (.inside (.value (List.mem_cons_of_mem _ List.mem_cons_self)) (.self .dynamic))
  exact ⟨hclosed, hunresolved, refuses_of_hasUnresolved hclosed hunresolved⟩

end ConstraintSet

end ConfigSchema
