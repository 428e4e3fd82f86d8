import ConfigSchema.Scope
import ConfigSchema.ValueType.Assignable

/-!
Candidates: the shapes of expressions found in documents, as constraints see them. A literal may be
given by its type or written out as a tuple, a map or an object of candidates; `literalType` brings
both to a type.
-/

namespace ConfigSchema

inductive Candidate
  /-- A literal of a type, which may be unknown. -/
  | literal (type : ValueType)
  /-- A reference; the scope is absent when its root is not known. -/
  | traversal (scope : Option Scope) (type : ValueType)
  /-- A type expression. -/
  | typeExpression (type : ValueType)
  | tuple (items : List Candidate)
  | map (entries : List (Candidate × Candidate))
  | object (fields : Entries String Candidate none)

namespace Candidate

/-- The literal of a value. -/
def ofValue (j : Json) : Candidate := literal (.ofValue j)

/-- A reference whose root is not known. -/
def unresolved : Candidate := traversal none .dynamic

/-- The type that all the given types are; unknown if they differ or if there is none. -/
def commonType : List ValueType → ValueType
  | [] => .dynamic
  | t :: ts => if ts.all (· == t) then t else .dynamic

mutual

/-- The type of a candidate that is built from literals only. The keys of a map have to be
strings. -/
def literalType : Candidate → Option ValueType
  | literal t => some t
  | traversal .. => none
  | typeExpression _ => none
  | tuple cs => (itemTypes cs).map .tuple
  | map es => (entryTypes es).map fun ts => .map (commonType ts)
  | object fs => (fieldTypes fs).map .object

def itemTypes : List Candidate → Option (List ValueType)
  | [] => some []
  | c :: cs =>
    match c.literalType, itemTypes cs with
    | some t, some ts => some (t :: ts)
    | _, _ => none

/-- The types of the values of a map. -/
def entryTypes : List (Candidate × Candidate) → Option (List ValueType)
  | [] => some []
  | (k, v) :: es =>
    match k.literalType, v.literalType, entryTypes es with
    | some s, some t, some ts => if s.isAssignableTo .string then some (t :: ts) else none
    | _, _, _ => none

def fieldTypes {lo : Option String} :
    Entries String Candidate lo → Option (Entries String ValueType lo)
  | .nil => some .nil
  | .cons name above c rest =>
    match c.literalType, fieldTypes rest with
    | some t, some ts => some (.cons name above t ts)
    | _, _ => none

end

/-- A literal of which nothing is known before evaluation. -/
def isDynamicLiteral : Candidate → Bool
  | literal .dynamic => true
  | _ => false

/-- The items of a tuple. -/
def items? : Candidate → Option (List Candidate)
  | tuple cs => some cs
  | literal (.tuple ts) => some (ts.map literal)
  | _ => none

/-- The fields of an object. -/
def fields? : Candidate → Option (Entries String Candidate none)
  | object fs => some fs
  | literal (.object ts) => some (ts.map literal)
  | _ => none

/-- The entries of a map; the fields of an object are entries with string keys. -/
def entries? : Candidate → Option (List (Candidate × Candidate))
  | map es => some es
  | object fs => some (fs.values.map fun c => (literal .string, c))
  | literal (.object ts) => some (ts.values.map fun t => (literal .string, literal t))
  | _ => none

end Candidate

end ConfigSchema
