/-!
Scopes: the closed catalogue of categories that a block or an attribute can publish symbols into.
-/

namespace ConfigSchema

inductive Scope
  | dataSource
  | localValue
  | moduleCall
  | outputValue
  | provider
  | resource
  | inputVariable
  deriving DecidableEq

namespace Scope

/-- Every scope, in the order of the names. -/
def all : List Scope :=
  [dataSource, localValue, moduleCall, outputValue, provider, resource, inputVariable]

def name : Scope → String
  | dataSource => "datasource"
  | localValue => "local"
  | moduleCall => "module"
  | outputValue => "output"
  | provider => "provider"
  | resource => "resource"
  | inputVariable => "variable"

/-- The scope of a name. -/
def ofName? (s : String) : Option Scope := all.find? fun scope => scope.name == s

@[simp] theorem mem_all (s : Scope) : s ∈ all := by
  cases s <;> decide

@[simp] theorem ofName?_name (s : Scope) : ofName? s.name = some s := by
  cases s <;> decide

end Scope

end ConfigSchema
