import ConfigSchema.Constraint.Match

/-!
The scopes that a constraint set offers. References are admitted by alternatives of their own kind
only, so the scopes listed for a set are those with a reference that satisfies it. Main statement:
`ConstraintSet.traversalScopes_exact`; the list is also free of repetitions and in the order in which
the scopes are first offered.
-/

namespace ConfigSchema

/-- Without the later repetitions, values stand in the order in which they are first met. -/
theorem pairwise_findIdx_eraseDups {α β : Type} [DecidableEq β] (f : α → Option β) (l : List α) :
    (l.filterMap f).eraseDups.Pairwise fun b b' =>
      l.findIdx (fun a => f a == some b) < l.findIdx fun a => f a == some b' := by
  induction l generalizing f with
  | nil => exact .nil
  | cons a l ih =>
      cases ha : f a with
      | none =>
          rw [List.filterMap_cons_none ha]
          refine (ih f).imp fun h => ?_
          simpa [List.findIdx_cons, ha] using h
      | some b =>
          -- behind the first `b` the others are met as they are when `b` does not count at all
          let g : α → Option β := fun a => (f a).filter fun b' => !b' == b
          have hrest : (l.filterMap f).filter (fun b' => !b' == b) = l.filterMap g :=
            List.filter_filterMap
          have hne : ∀ b' ∈ (l.filterMap g).eraseDups, (b == b') = false := fun b' hb' => by
            rw [List.mem_eraseDups, ← hrest, List.mem_filter] at hb'
            exact beq_false_of_ne fun e => by simp [e] at hb'
          have hsame : ∀ b', (b == b') = false → ∀ c, (g c == some b') = (f c == some b') := by
            intro b' hb' c
            cases hc : f c with
            | none => simp [g, hc]
            | some d =>
                by_cases hd : d = b
                · simp [g, hc, Option.filter_some, hd, hb']
                · simp [g, hc, Option.filter_some, hd]
          rw [List.filterMap_cons_some ha, List.eraseDups_cons, hrest, List.pairwise_cons]
          refine ⟨fun b' hb' => ?_, (ih g).imp_of_mem fun {c c'} hc hc' h => ?_⟩
          · simp [List.findIdx_cons, ha, hne b' hb']
          · simp only [hsame c (hne c hc), hsame c' (hne c' hc')] at h
            simp only [List.findIdx_cons, ha, Option.some_beq_some, hne c hc, hne c' hc']
            exact Nat.succ_lt_succ h

namespace Constraint

/-- The scope into which the constraint admits references. -/
def scope? : Constraint → Option Scope
  | traversal scope _ => some scope
  | _ => none

/-- A reference is accepted by a constraint on references into its scope, or where anything is. -/
theorem accepts_traversal_iff {v : Constraint} {scope : Scope} {t : ValueType} :
    v.accepts (.traversal (some scope) t) = true ↔ v = any ∨
      ∃ ofType, v = traversal scope ofType ∧
        ∀ expected, ofType = some expected → t.isAssignableTo expected = true := by
  cases v with
  | traversal scope' ofType =>
      have hscope : (scope == scope') = true ↔ scope' = scope := by rw [beq_iff_eq, eq_comm]
      cases ofType <;> simp [accepts, hscope, and_assoc]
  | _ => simp [accepts, Candidate.literalType, Candidate.isDynamicLiteral, Candidate.items?,
      Candidate.entries?, Candidate.fields?]

end Constraint

namespace ConstraintSet

theorem traversalScopes_eq (set : ConstraintSet) :
    set.traversalScopes = (set.filterMap Constraint.scope?).eraseDups := by
  rw [traversalScopes]
  congr 2

/-- The position of the first alternative that admits references into the scope. -/
def firstInto (set : ConstraintSet) (scope : Scope) : Nat :=
  set.findIdx fun v => v.scope? == some scope

theorem mem_traversalScopes_iff {set : ConstraintSet} {scope : Scope} :
    scope ∈ set.traversalScopes ↔ ∃ ofType, .traversal scope ofType ∈ set := by
  rw [traversalScopes_eq, List.mem_eraseDups, List.mem_filterMap]
  constructor
  · rintro ⟨v, hv, hscope⟩
    cases v with
    | traversal scope' ofType =>
        cases hscope
        exact ⟨ofType, hv⟩
    | _ => cases hscope
  · rintro ⟨ofType, hv⟩
    exact ⟨_, hv, rfl⟩

/-- Where nothing admits just anything, the scopes of a set are those into which some reference
satisfies it. Each scope is listed once, and before those that are first offered later. -/
theorem traversalScopes_exact {set : ConstraintSet} (hany : .any ∉ set) :
    (∀ scope, scope ∈ set.traversalScopes ↔
        ∃ t, set.isSatisfiedBy (.traversal (some scope) t) = true) ∧
      set.traversalScopes.Nodup ∧
      set.traversalScopes.Pairwise fun s s' => set.firstInto s < set.firstInto s' := by
  have horder : set.traversalScopes.Pairwise fun s s' => set.firstInto s < set.firstInto s' := by
    rw [traversalScopes_eq]
    exact pairwise_findIdx_eraseDups Constraint.scope? set
  refine ⟨fun scope => ?_, horder.imp fun h => fun e => absurd h (by simp [e]), horder⟩
  simp only [mem_traversalScopes_iff, isSatisfiedBy_iff, Constraint.accepts_traversal_iff]
  constructor
  · -- a reference of unknown type fits whatever type is asked for
    rintro ⟨ofType, hv⟩
    exact ⟨.dynamic, _, hv, .inr ⟨ofType, rfl, fun t _ => ValueType.dynamic_isAssignableTo t⟩⟩
  · rintro ⟨t, v, hv, rfl | ⟨ofType, rfl, -⟩⟩
    · exact absurd hv hany
    · exact ⟨ofType, hv⟩

/-- The first scope is offered with a type, and anything is admitted in tuples only. -/
theorem traversalScopes_exact_variableAndModule :
    .any ∉ ([.traversal .inputVariable (some .string), .uniform [.any],
        .traversal .moduleCall none] : ConstraintSet) ∧
      (∀ scope, scope ∈ [Scope.inputVariable, Scope.moduleCall] ↔
        ∃ t, isSatisfiedBy [.traversal .inputVariable (some .string), .uniform [.any],
          .traversal .moduleCall none] (.traversal (some scope) t) = true) ∧
      [Scope.inputVariable, Scope.moduleCall].Nodup ∧
      [Scope.inputVariable, Scope.moduleCall].Pairwise fun s s' =>
        firstInto [.traversal .inputVariable (some .string), .uniform [.any],
          .traversal .moduleCall none] s <
        firstInto [.traversal .inputVariable (some .string), .uniform [.any],
          .traversal .moduleCall none] s' := by
  have hany : .any ∉ ([.traversal .inputVariable (some .string), .uniform [.any],
      .traversal .moduleCall none] : ConstraintSet) := by decide
  exact ⟨hany, traversalScopes_exact hany⟩

end ConstraintSet

end ConfigSchema
