import ConfigSchema.Json.Basic

/-!
How JSON spells a choice among alternatives. A choice with a tag is an object, one field of which
tells the alternative; any other choice is a name, or an object with the name as its only field.
Whatever stands inside an object with a tag may be spelled more freely.
-/

namespace ConfigSchema

/-- The spellings of a choice. -/
inductive Spelling
  /-- Alternatives have names, and null stands for nothing. -/
  | named
  /-- As inside an object with a tag: a tag may also be the position of its alternative, and an
  object without fields stands for nothing, too. -/
  | free
  deriving DecidableEq

namespace Spelling

/-- The value stands for nothing. -/
def isNothing : Spelling → Json → Bool
  | _, .null => true
  | free, .object .nil => true
  | _, _ => false

/-- The name that a tag gives, among the names of the alternatives in their order. -/
def tag? (s : Spelling) (names : List String) : Json → Option String
  | .string name => some name
  | .number (.integer n) => if s = free ∧ 0 ≤ n.value then names[n.value.toNat]? else none
  | _ => none

/-- The name of an alternative that holds nothing. -/
def bareName? (s : Spelling) : Json → Option String
  | .string name => some name
  | .object (.cons name _ j .nil) => if s.isNothing j then some name else none
  | _ => none

@[simp] theorem tag?_string (s : Spelling) (names : List String) (name : String) :
    s.tag? names (.string name) = some name := rfl

@[simp] theorem bareName?_string (s : Spelling) (name : String) :
    s.bareName? (.string name) = some name := rfl

end Spelling

end ConfigSchema
