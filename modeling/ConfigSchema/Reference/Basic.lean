import ConfigSchema.Address.Basic
import ConfigSchema.Scope
import ConfigSchema.ValueType.Assignable

/-!
References: what a block or an attribute publishes, under which address, and how the type of the
published symbol is found. Rules for the type apply by tier and not in the order in which they are
written: a fixed type comes before the type that an attribute declares, and that before the type of
a value.
-/

namespace ConfigSchema

/-- How the type of a published symbol is found. -/
inductive TypeRule
  /-- A fixed type. -/
  | explicit (type : ValueType)
  /-- The type expression that an attribute holds. -/
  | declaredBy (name : String)
  /-- The type of the value of an attribute; without a name, of the addressed attribute itself. -/
  | inferredFrom (name : Option String)
  deriving DecidableEq

structure Reference where
  scope : Scope
  address : Option Address
  rules : List TypeRule
  deriving DecidableEq

/-- What the rules say about the type of a symbol. -/
inductive TypeInference
  | inferred (type : ValueType)
  /-- The declared type does not accept the value. -/
  | mismatched (declared actual : ValueType)
  /-- No rule applies. -/
  | unresolved
  deriving DecidableEq

namespace TypeRule

def tier : TypeRule → Nat
  | explicit _ => 1
  | declaredBy _ => 2
  | inferredFrom _ => 3

/-- The attribute that the rule reads. -/
def source? : TypeRule → Option String
  | explicit _ => none
  | declaredBy name => some name
  | inferredFrom name => name

/-- The type that the rule declares for the symbol of a block. -/
def declared? (b : BlockInstance) : TypeRule → Option ValueType
  | explicit t => some t
  | declaredBy name =>
    match b.attribute? name with
    | some (.typeExpression t) => some t
    | _ => none
  | inferredFrom _ => none

/-- The value whose type the rule takes, when the attribute `addressed` is the one published. -/
def value? (b : BlockInstance) (addressed : Option String) : TypeRule → Option AttributeValue
  | inferredFrom name => (name.or addressed).bind b.attribute?
  | _ => none

end TypeRule

namespace TypeInference

/-- The type to publish: the declared one on a mismatch, and the dynamic type if nothing is
known. -/
def effectiveType : TypeInference → ValueType
  | inferred t => t
  | mismatched declared _ => declared
  | unresolved => .dynamic

end TypeInference

namespace Reference

/-- A reference with an address. -/
def addressed (scope : Scope) (address : Address) : Reference := ⟨scope, some address, []⟩

/-- A reference whose address is found elsewhere. -/
def unaddressed (scope : Scope) : Reference := ⟨scope, none, []⟩

def withRule (r : Reference) (rule : TypeRule) : Reference := { r with rules := r.rules ++ [rule] }

/-- The path of a block, or of its attribute `name`. -/
def resolve (r : Reference) (b : BlockInstance) (name : Option String) : Resolution :=
  match r.address with
  | some address => address.resolve b name
  | none => .error .noAddress

/-- The rules by tier; within a tier in the order in which they are written. -/
def rulesByPrecedence (r : Reference) : List TypeRule :=
  r.rules.mergeSort fun a b => a.tier ≤ b.tier

/-- The type of the symbol that a block publishes. Without rules nothing is known about the type.
Otherwise the first declared type counts, and it has to accept the first value that is there. -/
def infer (r : Reference) (valueType : AttributeValue → ValueType) (b : BlockInstance)
    (name : Option String) : TypeInference :=
  if r.rules.isEmpty then .inferred .dynamic
  else
    let declared := r.rulesByPrecedence.findSome? (·.declared? b)
    let actual := (r.rulesByPrecedence.findSome? (·.value? b name)).map valueType
    match declared, actual with
    | some d, some a => if a.isAssignableTo d then .inferred d else .mismatched d a
    | some d, none => .inferred d
    | none, some a => .inferred a
    | none, none => .unresolved

end Reference

end ConfigSchema
