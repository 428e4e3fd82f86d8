import ConfigSchema.Constraint.Basic

/-!
Constraint sets within constraint sets. The list of all sets of a set holds exactly those that are
found by going from a set to its alternatives and from an alternative to its parts.
-/

namespace ConfigSchema

namespace ConstraintSet

/-- The first set is the second one, or is nested in one of its alternatives at any depth. -/
inductive NestedIn (s : ConstraintSet) : ConstraintSet → Prop
  | self : NestedIn s s
  | uniform {set vs : ConstraintSet} : .uniform vs ∈ set → NestedIn s vs → NestedIn s set
  | positional {set vs : ConstraintSet} {vss : List ConstraintSet} :
    .positional vss ∈ set → vs ∈ vss → NestedIn s vs → NestedIn s set
  | key {set ks vs : ConstraintSet} : .map ks vs ∈ set → NestedIn s ks → NestedIn s set
  | value {set ks vs : ConstraintSet} : .map ks vs ∈ set → NestedIn s vs → NestedIn s set
  | field {set : ConstraintSet} {fs : SortedMap String (ObjectAttribute ConstraintSet)}
    {isOpen : Bool} {name : String} {a : ObjectAttribute ConstraintSet} :
    .object fs isOpen ∈ set → fs.get? name = some a → NestedIn s a.constraints → NestedIn s set

end ConstraintSet

namespace Constraint

open ConstraintSet (NestedIn allSets)

theorem mem_setsWithin {s : ConstraintSet} {vs : ConstraintSet} :
    s ∈ setsWithin vs ↔ ∃ v ∈ vs, s ∈ v.nestedSets := by
  induction vs with
  | nil => simp [setsWithin]
  | cons v vs ih => simp [setsWithin, ih]

theorem mem_setsOfPositions {s : ConstraintSet} {vss : List ConstraintSet} :
    s ∈ setsOfPositions vss ↔ ∃ vs ∈ vss, s ∈ allSets vs := by
  induction vss with
  | nil => simp [setsOfPositions]
  | cons vs vss ih => simp [setsOfPositions, allSets, ih, or_assoc]

theorem mem_setsOfAttributes {lo : Option String} {s : ConstraintSet}
    {fs : Entries String (ObjectAttribute ConstraintSet) lo} :
    s ∈ setsOfAttributes fs ↔ ∃ name a, fs.get? name = some a ∧ s ∈ allSets a.constraints := by
  induction fs with
  | nil => simp [setsOfAttributes]
  | cons name above a rest ih =>
      obtain ⟨vs, isOptional⟩ := a
      rw [setsOfAttributes, List.mem_append, ih, Entries.exists_get?_cons]
      rfl

theorem nestedIn_of_mem_allSets_of {s vs : ConstraintSet}
    (h : ∀ v ∈ vs, s ∈ v.nestedSets → s.NestedIn vs) (hs : s ∈ allSets vs) : s.NestedIn vs := by
  rcases List.mem_cons.1 hs with rfl | hs
  · exact .self
  · obtain ⟨v, hv, hs⟩ := mem_setsWithin.1 hs
    exact h v hv hs

theorem nestedIn_of_mem_nestedSets {s set : ConstraintSet} {v : Constraint} (hv : v ∈ set)
    (h : s ∈ v.nestedSets) : s.NestedIn set := by
  -- the hypotheses are about the alternatives of each part, and `v` leads from the set to the part
  induction v using induct generalizing set with
  | literal t => cases h
  | traversal scope t => cases h
  | uniform vs ih =>
      exact .uniform hv (nestedIn_of_mem_allSets_of (fun v hv => ih v hv hv) h)
  | positional vss ih =>
      obtain ⟨vs, hvs, h⟩ := mem_setsOfPositions.1 h
      exact .positional hv hvs (nestedIn_of_mem_allSets_of (fun v hv => ih vs hvs v hv hv) h)
  | map ks vs ihk ihv =>
      rcases List.mem_append.1 h with h | h
      · exact .key hv (nestedIn_of_mem_allSets_of (fun v hv => ihk v hv hv) h)
      · exact .value hv (nestedIn_of_mem_allSets_of (fun v hv => ihv v hv hv) h)
  | object fs isOpen ih =>
      obtain ⟨name, a, ha, h⟩ := mem_setsOfAttributes.1 h
      exact .field hv ha (nestedIn_of_mem_allSets_of (fun v hv => ih name a ha v hv hv) h)
  | typeExpression => cases h
  | any => cases h

end Constraint

namespace ConstraintSet

open Constraint

theorem mem_allSets_of_mem_nestedSets {s set : ConstraintSet} {v : Constraint} (hv : v ∈ set)
    (h : s ∈ v.nestedSets) : s ∈ set.allSets :=
  List.mem_cons_of_mem set (mem_setsWithin.2 ⟨v, hv, h⟩)

/-- The list of all sets holds the set itself and the sets nested in it. -/
theorem mem_allSets_iff {s set : ConstraintSet} : s ∈ set.allSets ↔ s.NestedIn set := by
  constructor
  · exact nestedIn_of_mem_allSets_of fun v hv => nestedIn_of_mem_nestedSets hv
  · intro h
    induction h with
    | self => exact List.mem_cons_self
    | uniform hv _ ih => exact mem_allSets_of_mem_nestedSets hv ih
    | positional hv hvs _ ih =>
        exact mem_allSets_of_mem_nestedSets hv (mem_setsOfPositions.2 ⟨_, hvs, ih⟩)
    | key hv _ ih => exact mem_allSets_of_mem_nestedSets hv (List.mem_append_left _ ih)
    | value hv _ ih => exact mem_allSets_of_mem_nestedSets hv (List.mem_append_right _ ih)
    | field hv ha _ ih =>
        exact mem_allSets_of_mem_nestedSets hv (mem_setsOfAttributes.2 ⟨_, _, ha, ih⟩)

end ConstraintSet

end ConfigSchema
