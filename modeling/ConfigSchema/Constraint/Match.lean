import ConfigSchema.Candidate
import ConfigSchema.Constraint.Basic

/-!
Which candidates a constraint accepts. A literal of unknown type is accepted by every constraint on
tuples, maps and objects, since its shape is known only at evaluation.
-/

namespace ConfigSchema

namespace Constraint

mutual

def accepts : Constraint → Candidate → Bool
  | any, _ => true
  | literal t, c =>
    match c.literalType with
    | some s => s.isAssignableTo t
    | none => false
  | traversal scope ofType, c =>
    match c with
    | .traversal (some s) t =>
      s == scope && (match ofType with
        | none => true
        | some expected => t.isAssignableTo expected)
    | _ => false
  | typeExpression, c =>
    match c with
    | .typeExpression _ => true
    | _ => false
  | uniform vs, c =>
    c.isDynamicLiteral ||
      match c with
      | .literal (.list t) => setAccepts vs (.literal t)
      | .literal (.set t) => setAccepts vs (.literal t)
      | _ =>
        match c.items? with
        | some cs => cs.all fun c => setAccepts vs c
        | none => false
  | positional vss, c =>
    c.isDynamicLiteral ||
      match c.items? with
      | some cs => positionsAccept vss cs
      | none => false
  | map ks vs, c =>
    c.isDynamicLiteral ||
      match c with
      | .literal (.map t) => setAccepts ks (.literal .string) && setAccepts vs (.literal t)
      | _ =>
        match c.entries? with
        | some es => es.all fun e => setAccepts ks e.1 && setAccepts vs e.2
        | none => false
  | object fs isOpen, c =>
    c.isDynamicLiteral ||
      match c.fields? with
      | some present =>
        attributesAccept present fs && (isOpen || present.keys.all fun name => fs.contains name)
      | none => false

/-- Some alternative accepts the candidate. -/
def setAccepts : List Constraint → Candidate → Bool
  | [], _ => false
  | v :: vs, c => v.accepts c || setAccepts vs c

/-- Position by position, with the same number of items. -/
def positionsAccept : List (List Constraint) → List Candidate → Bool
  | [], [] => true
  | vs :: vss, c :: cs => setAccepts vs c && positionsAccept vss cs
  | _, _ => false

/-- Every listed attribute is there with a value that satisfies its set, or it is optional and
absent. -/
def attributesAccept (present : Entries String Candidate none) {lo : Option String} :
    Entries String (ObjectAttribute (List Constraint)) lo → Bool
  | .nil => true
  | .cons name _ ⟨vs, isOptional⟩ rest =>
    (match present.get? name with
      | some c => setAccepts vs c
      | none => isOptional) && attributesAccept present rest

end

theorem setAccepts_eq_any (set : List Constraint) (c : Candidate) :
    setAccepts set c = set.any fun v => v.accepts c := by
  induction set with
  | nil => rfl
  | cons v vs ih => simp [setAccepts, ih]

end Constraint

namespace ConstraintSet

/-- The index of the first alternative that accepts the candidate. -/
def firstMatch (set : ConstraintSet) (c : Candidate) : Option Nat :=
  set.findIdx? fun v => v.accepts c

def isSatisfiedBy (set : ConstraintSet) (c : Candidate) : Bool :=
  Constraint.setAccepts set c

theorem isSatisfiedBy_iff {set : ConstraintSet} {c : Candidate} :
    set.isSatisfiedBy c = true ↔ ∃ v ∈ set, v.accepts c = true := by
  simp [isSatisfiedBy, Constraint.setAccepts_eq_any]

theorem isSome_firstMatch (set : ConstraintSet) (c : Candidate) :
    (set.firstMatch c).isSome = set.isSatisfiedBy c := by
  simp [firstMatch, isSatisfiedBy, Constraint.setAccepts_eq_any]

end ConstraintSet

end ConfigSchema
