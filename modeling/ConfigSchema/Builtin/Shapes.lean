import ConfigSchema.Schema.Basic

/-!
Shapes of attributes that several blocks of the built-in schema share.
-/

namespace ConfigSchema.Builtin

open Constraint (literal traversal)

def stringSet : ConstraintSet := [literal .string]

def stringLiteral (d : Description) : AttributeSchema :=
  (AttributeSchema.optional stringSet).withDescription d

def boolLiteral (d : Description) : AttributeSchema :=
  (AttributeSchema.optional [literal .bool]).withDescription d

/-- A tuple of references to data sources, resources and modules. -/
def dependsOn (d : Description) : AttributeSchema :=
  (AttributeSchema.optional [.uniform [traversal .dataSource none, traversal .resource none,
    traversal .moduleCall none]]).withDescription d

/-- A reference to the configuration of a provider. -/
def providerReference (d : Description) : AttributeSchema :=
  ((AttributeSchema.optional [traversal .provider none]).withDescription d).asDependencyKey

/-- A number, literal or referred to. -/
def countWithTraversals (d : Description) : AttributeSchema :=
  (AttributeSchema.optional (literal .number ::
    [Scope.dataSource, .localValue, .resource, .inputVariable].map fun s =>
      traversal s (some .number))).withDescription d

/-- A set or a map, literal or referred to. -/
def forEach (d : Description) : AttributeSchema :=
  let set := ValueType.set .dynamic
  let map := ValueType.map .dynamic
  (AttributeSchema.optional ([literal set, literal map] ++
    [Scope.dataSource, .resource, .inputVariable, .localValue].flatMap fun s =>
      [traversal s (some set), traversal s (some map)])).withDescription d

/-- A tuple of any expressions. -/
def anyTuple (d : Description) : AttributeSchema :=
  (AttributeSchema.optional [.uniform [.any]]).withDescription d

end ConfigSchema.Builtin
