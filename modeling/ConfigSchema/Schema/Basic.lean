import ConfigSchema.Constraint.Basic
import ConfigSchema.Reference.Basic

/-!
Schemas: which blocks a configuration may hold, what labels and attributes each of them has, and
what it publishes for others to refer to.
-/

namespace ConfigSchema

/-- Documentation of an element. -/
inductive Description
  | plainText (text : String)
  | markdown (text : String)
  deriving DecidableEq

/-- A label, by its position in the block. -/
structure LabelSchema where
  name : String
  description : Description
  isDependencyKey : Bool
  deriving DecidableEq

/-- Whether an attribute has to be present. -/
inductive Presence
  | required
  | optional
  /-- Optional, with the value that is assumed in its absence. -/
  | defaulted (value : Json)

structure AttributeSchema where
  constraints : ConstraintSet
  presence : Presence
  isDependencyKey : Bool
  reference : Option Reference
  description : Option Description

/-- Labels, attributes and nested blocks of a block. The open rule admits attributes of any name;
attributes that are listed come before it. -/
structure BlockSchema where
  labels : List LabelSchema
  attributes : SortedMap String AttributeSchema
  openRule : Option AttributeSchema
  blocks : Entries String BlockSchema none
  maxItems : Option UInt64
  reference : Option Reference
  description : Option Description

abbrev BlockMap := SortedMap String BlockSchema

/-- The blocks at the top level of a configuration. -/
structure SchemaTree where
  blocks : BlockMap

/-- The labels and attributes that select the variant of the rest of a block. -/
structure DependencyKeys where
  labels : List (Nat × String)
  attributes : List String
  deriving DecidableEq

namespace Description

def text : Description → String
  | plainText s => s
  | markdown s => s

end Description

namespace LabelSchema

def plain (name : String) (description : Description) : LabelSchema := ⟨name, description, false⟩

def asDependencyKey (l : LabelSchema) : LabelSchema := { l with isDependencyKey := true }

end LabelSchema

namespace AttributeSchema

def required (set : ConstraintSet) : AttributeSchema := ⟨set, .required, false, none, none⟩

def optional (set : ConstraintSet) : AttributeSchema := ⟨set, .optional, false, none, none⟩

def withDefault (a : AttributeSchema) (value : Json) : AttributeSchema :=
  { a with presence := .defaulted value }

def withDescription (a : AttributeSchema) (d : Description) : AttributeSchema :=
  { a with description := some d }

def withReference (a : AttributeSchema) (r : Reference) : AttributeSchema :=
  { a with reference := some r }

def asDependencyKey (a : AttributeSchema) : AttributeSchema := { a with isDependencyKey := true }

def isRequired (a : AttributeSchema) : Bool :=
  match a.presence with
  | .required => true
  | _ => false

end AttributeSchema

namespace DependencyKeys

def isEmpty (k : DependencyKeys) : Bool := k.labels.isEmpty && k.attributes.isEmpty

/-- More than one key takes part. -/
def isComposite (k : DependencyKeys) : Bool := 1 < k.labels.length + k.attributes.length

end DependencyKeys

namespace BlockSchema

/-- A block without labels, attributes and nested blocks. -/
def bare : BlockSchema := ⟨[], .nil, none, .nil, none, none, none⟩

instance : Inhabited BlockSchema := ⟨bare⟩

def described (d : Description) : BlockSchema := { bare with description := some d }

def withLabel (b : BlockSchema) (l : LabelSchema) : BlockSchema :=
  { b with labels := b.labels ++ [l] }

def withAttribute (b : BlockSchema) (name : String) (a : AttributeSchema) : BlockSchema :=
  { b with attributes := b.attributes.insert name a }

def withOpenRule (b : BlockSchema) (a : AttributeSchema) : BlockSchema :=
  { b with openRule := some a }

def withBlock (b : BlockSchema) (name : String) (nested : BlockSchema) : BlockSchema :=
  { b with blocks := b.blocks.insert name nested }

def withMaxItems (b : BlockSchema) (n : UInt64) : BlockSchema := { b with maxItems := some n }

def withReference (b : BlockSchema) (r : Reference) : BlockSchema := { b with reference := some r }

/-- The schema of an attribute that a document has: the listed one, or else the open rule. -/
def attributeFor? (b : BlockSchema) (name : String) : Option AttributeSchema :=
  (b.attributes.get? name).or b.openRule

/-- The attribute is listed or admitted by the open rule. -/
def knowsAttribute (b : BlockSchema) (name : String) : Bool :=
  b.attributes.contains name || b.openRule.isSome

def requiredAttributes (b : BlockSchema) : List String :=
  (b.attributes.toList.filter fun p => p.2.isRequired).map Prod.fst

def dependencyKeys (b : BlockSchema) : DependencyKeys where
  labels := (b.labels.zipIdx.filter fun p => p.1.isDependencyKey).map fun p => (p.2, p.1.name)
  attributes := (b.attributes.toList.filter fun p => p.2.isDependencyKey).map Prod.fst

/-- The principle of induction, with one hypothesis for all nested blocks. -/
@[elab_as_elim] theorem induct {P : BlockSchema → Prop}
    (block : ∀ b : BlockSchema, (∀ name n, b.blocks.get? name = some n → P n) → P b)
    (b : BlockSchema) : P b := by
  refine BlockSchema.rec (motive_1 := P)
    (motive_2 := fun _ bs => ∀ name n, bs.get? name = some n → P n) ?_ ?_ ?_ b
  · intro labels attributes openRule blocks maxItems reference description hblocks
    exact block _ hblocks
  · intro _ name n h
    cases h
  · intro _ key _ b rest hb hrest name n h
    rw [Entries.get?_cons] at h
    split at h
    · exact Option.some.inj h ▸ hb
    · exact hrest name n h

end BlockSchema

namespace BlockMap

/-- The block at a path of names; the empty path leads to no block. -/
def at? (m : BlockMap) : List String → Option BlockSchema
  | [] => none
  | [name] => m.get? name
  | name :: rest => (m.get? name).bind fun b => at? b.blocks rest

end BlockMap

namespace SchemaTree

def empty : SchemaTree := ⟨.nil⟩

def withBlock (t : SchemaTree) (name : String) (b : BlockSchema) : SchemaTree :=
  ⟨t.blocks.insert name b⟩

def block? (t : SchemaTree) (name : String) : Option BlockSchema := t.blocks.get? name

def blockAt? (t : SchemaTree) (path : List String) : Option BlockSchema :=
  BlockMap.at? t.blocks path

end SchemaTree

end ConfigSchema
