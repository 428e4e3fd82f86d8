import ConfigSchema.Scope
import ConfigSchema.ValueType.Basic

/-!
Constraints on expressions. A constraint set is a list of alternatives in the order in which they
are offered; an expression satisfies the set when one of them accepts it.
-/

namespace ConfigSchema

/-- One attribute of an object constraint, with the constraint set of its value. -/
structure ObjectAttribute (σ : Type) where
  constraints : σ
  isOptional : Bool
  deriving DecidableEq

inductive Constraint
  /-- A literal of a type; the dynamic type stands for any literal. -/
  | literal (type : ValueType)
  /-- A reference into a scope, perhaps restricted to a type. -/
  | traversal (scope : Scope) (ofType : Option ValueType)
  /-- A tuple of any length whose elements all satisfy one set. -/
  | uniform (elements : List Constraint)
  /-- A tuple with one set for each position. -/
  | positional (positions : List (List Constraint))
  | map (keys values : List Constraint)
  /-- An object; an open one admits attributes that are not listed. -/
  | object (attributes : Entries String (ObjectAttribute (List Constraint)) none) (isOpen : Bool)
  | typeExpression
  | any

/-- Alternatives in the order in which they are offered. -/
abbrev ConstraintSet := List Constraint

namespace Constraint

instance : Inhabited Constraint := ⟨any⟩

/-! Equality of constraints is decided by comparing them. -/

mutual

def beq : Constraint → Constraint → Bool
  | literal s, literal t => s == t
  | traversal s u, traversal t v => s == t && u == v
  | uniform ss, uniform ts => beqSet ss ts
  | positional ss, positional ts => beqSets ss ts
  | map ks vs, map ks' vs' => beqSet ks ks' && beqSet vs vs'
  | object ss o, object ts o' => beqAttributes ss ts && o == o'
  | typeExpression, typeExpression => true
  | any, any => true
  | _, _ => false
termination_by structural v => v

def beqSet : List Constraint → List Constraint → Bool
  | [], [] => true
  | v :: vs, w :: ws => v.beq w && beqSet vs ws
  | _, _ => false
termination_by structural v => v

def beqSets : List (List Constraint) → List (List Constraint) → Bool
  | [], [] => true
  | vs :: vss, ws :: wss => beqSet vs ws && beqSets vss wss
  | _, _ => false
termination_by structural v => v

def beqAttributes {lo lo' : Option String} :
    Entries String (ObjectAttribute (List Constraint)) lo →
      Entries String (ObjectAttribute (List Constraint)) lo' → Bool
  | .nil, .nil => true
  | .cons k _ ⟨vs, o⟩ rest, .cons k' _ ⟨ws, o'⟩ rest' =>
    k == k' && beqSet vs ws && o == o' && beqAttributes rest rest'
  | _, _ => false
termination_by structural v => v

end

mutual

theorem eq_of_beq : ∀ v w : Constraint, v.beq w = true → v = w
  | literal s, w, h => by
    cases w <;> simp only [beq, Bool.false_eq_true] at h
    rw [beq_iff_eq.1 h]
  | traversal s u, w, h => by
    cases w <;> simp only [beq, Bool.false_eq_true, Bool.and_eq_true, beq_iff_eq] at h
    rw [h.1, h.2]
  | uniform vs, w, h => by
    cases w <;> simp only [beq, Bool.false_eq_true] at h
    rw [eq_of_beqSet vs _ h]
  | positional vss, w, h => by
    cases w <;> simp only [beq, Bool.false_eq_true] at h
    rw [eq_of_beqSets vss _ h]
  | map ks vs, w, h => by
    cases w <;> simp only [beq, Bool.false_eq_true, Bool.and_eq_true] at h
    rw [eq_of_beqSet ks _ h.1, eq_of_beqSet vs _ h.2]
  | object fs o, w, h => by
    cases w <;> simp only [beq, Bool.false_eq_true, Bool.and_eq_true, beq_iff_eq] at h
    rw [eq_of_beqAttributes fs _ h.1, h.2]
  | typeExpression, w, h => by cases w <;> simp_all [beq]
  | any, w, h => by cases w <;> simp_all [beq]

theorem eq_of_beqSet : ∀ vs ws : List Constraint, beqSet vs ws = true → vs = ws
  | [], ws, h => by cases ws <;> simp_all [beqSet]
  | v :: vs, ws, h => by
    cases ws with
    | nil => simp [beqSet] at h
    | cons w ws =>
      simp only [beqSet, Bool.and_eq_true] at h
      rw [eq_of_beq v w h.1, eq_of_beqSet vs ws h.2]

theorem eq_of_beqSets : ∀ vss wss : List (List Constraint), beqSets vss wss = true → vss = wss
  | [], wss, h => by cases wss <;> simp_all [beqSets]
  | vs :: vss, wss, h => by
    cases wss with
    | nil => simp [beqSets] at h
    | cons ws wss =>
      simp only [beqSets, Bool.and_eq_true] at h
      rw [eq_of_beqSet vs ws h.1, eq_of_beqSets vss wss h.2]

theorem eq_of_beqAttributes {lo : Option String} :
    ∀ fs gs : Entries String (ObjectAttribute (List Constraint)) lo,
      beqAttributes fs gs = true → fs = gs
  | .nil, gs, h => by cases gs <;> simp_all [beqAttributes]
  | .cons k _ ⟨vs, o⟩ rest, gs, h => by
    cases gs with
    | nil => simp [beqAttributes] at h
    | cons k' _ g rest' =>
      obtain ⟨ws, o'⟩ := g
      simp only [beqAttributes, Bool.and_eq_true, beq_iff_eq] at h
      obtain ⟨⟨⟨rfl, hv⟩, rfl⟩, hr⟩ := h
      rw [eq_of_beqSet vs ws hv, eq_of_beqAttributes rest rest' hr]

end

mutual

theorem beq_self : ∀ v : Constraint, v.beq v = true
  | literal t => by simp [beq]
  | traversal s u => by simp [beq]
  | uniform vs => by simpa [beq] using beqSet_self vs
  | positional vss => by simpa [beq] using beqSets_self vss
  | map ks vs => by simp [beq, beqSet_self ks, beqSet_self vs]
  | object fs o => by simpa [beq] using beqAttributes_self fs
  | typeExpression => rfl
  | any => rfl

theorem beqSet_self : ∀ vs : List Constraint, beqSet vs vs = true
  | [] => rfl
  | v :: vs => by simp [beqSet, beq_self v, beqSet_self vs]

theorem beqSets_self : ∀ vss : List (List Constraint), beqSets vss vss = true
  | [] => rfl
  | vs :: vss => by simp [beqSets, beqSet_self vs, beqSets_self vss]

theorem beqAttributes_self {lo : Option String} :
    ∀ fs : Entries String (ObjectAttribute (List Constraint)) lo, beqAttributes fs fs = true
  | .nil => rfl
  | .cons _ _ ⟨vs, _⟩ rest => by simp [beqAttributes, beqSet_self vs, beqAttributes_self rest]

end

instance : DecidableEq Constraint := fun v w =>
  decidable_of_iff (v.beq w = true) ⟨eq_of_beq v w, fun h => h ▸ beq_self v⟩

/-! The principle of induction, with one hypothesis for all alternatives of the sets in a
constraint. -/

section Induction

variable {P : Constraint → Prop} (literal : ∀ t, P (literal t))
  (traversal : ∀ scope t, P (traversal scope t))
  (uniform : ∀ vs, (∀ v ∈ vs, P v) → P (uniform vs))
  (positional : ∀ vss, (∀ vs ∈ vss, ∀ v ∈ vs, P v) → P (positional vss))
  (map : ∀ ks vs, (∀ v ∈ ks, P v) → (∀ v ∈ vs, P v) → P (map ks vs))
  (object : ∀ fs isOpen, (∀ name a, fs.get? name = some a → ∀ v ∈ a.constraints, P v) →
    P (object fs isOpen))
  (typeExpression : P typeExpression) (any : P any)

include literal traversal uniform positional map object typeExpression any

@[elab_as_elim] theorem induct (v : Constraint) : P v := by
  refine Constraint.rec (motive_1 := P) (motive_2 := fun vs => ∀ v ∈ vs, P v)
    (motive_3 := fun vss => ∀ vs ∈ vss, ∀ v ∈ vs, P v)
    (motive_4 := fun _ fs => ∀ name a, fs.get? name = some a → ∀ v ∈ a.constraints, P v)
    (motive_5 := fun a => ∀ v ∈ a.constraints, P v)
    literal traversal uniform positional map object typeExpression any ?_ ?_ ?_ ?_ ?_ ?_ ?_ v
  · exact fun _ hv => nomatch hv
  · exact fun v vs hv hvs => List.forall_mem_cons.2 ⟨hv, hvs⟩
  · exact fun _ hvs => nomatch hvs
  · exact fun vs vss hvs hvss => List.forall_mem_cons.2 ⟨hvs, hvss⟩
  · intro _ name a h
    cases h
  · intro _ key _ b rest hb hrest name a h
    rw [Entries.get?_cons] at h
    split at h
    · exact Option.some.inj h ▸ hb
    · exact hrest name a h
  · exact fun vs _ hvs => hvs

end Induction

/-- An object that admits the listed attributes only. -/
def closedObject (attributes : List (String × ObjectAttribute ConstraintSet)) : Constraint :=
  object (.ofList attributes) false

/-! The sets nested in a constraint, outer ones first. -/

mutual

def nestedSets : Constraint → List (List Constraint)
  | literal _ => []
  | traversal .. => []
  | uniform vs => vs :: setsWithin vs
  | positional vss => setsOfPositions vss
  | map ks vs => (ks :: setsWithin ks) ++ (vs :: setsWithin vs)
  | object fs _ => setsOfAttributes fs
  | typeExpression => []
  | any => []

/-- The sets nested in the alternatives of a set. -/
def setsWithin : List Constraint → List (List Constraint)
  | [] => []
  | v :: vs => v.nestedSets ++ setsWithin vs

def setsOfPositions : List (List Constraint) → List (List Constraint)
  | [] => []
  | vs :: vss => (vs :: setsWithin vs) ++ setsOfPositions vss

def setsOfAttributes {lo : Option String} :
    Entries String (ObjectAttribute (List Constraint)) lo → List (List Constraint)
  | .nil => []
  | .cons _ _ ⟨vs, _⟩ rest => (vs :: setsWithin vs) ++ setsOfAttributes rest

end

end Constraint

namespace ConstraintSet

/-- The set itself and every set nested in it. -/
def allSets (set : ConstraintSet) : List ConstraintSet := set :: Constraint.setsWithin set

/-- The scopes that the set can refer into, in the order of their first alternatives. -/
def traversalScopes (set : ConstraintSet) : List Scope :=
  (set.filterMap fun v =>
    match v with
    | .traversal scope _ => some scope
    | _ => none).eraseDups

end ConstraintSet

end ConfigSchema
