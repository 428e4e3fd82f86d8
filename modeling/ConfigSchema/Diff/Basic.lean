import ConfigSchema.Schema.Basic

/-!
Differences between two schemas. A change is breaking when a configuration that the old schema
admits may be refused by the new one. The changes of a block come in a fixed order: its own, those
of its attributes by name, those of its open rule, and those of its nested blocks by name; in each
group what is new comes last.
-/

namespace ConfigSchema

inductive ChangeKind
  | attributeAdded
  | attributeRemoved
  /-- Other expressions are accepted. -/
  | constraintsChanged
  /-- An attribute has become required or is no longer. -/
  | optionalityChanged
  | blockAdded
  | blockRemoved
  /-- Other labels, limits or references. -/
  | blockChanged
  | documentationChanged
  deriving DecidableEq

structure SchemaChange where
  kind : ChangeKind
  path : String
  isBreaking : Bool
  description : String
  deriving DecidableEq

namespace SchemaChange

/-- The path of an element below a path. -/
def joinPath (parent name : String) : String :=
  if parent.isEmpty then name else parent ++ "." ++ name

def documentation (path : String) : SchemaChange :=
  ⟨.documentationChanged, path, false, "Description of '" ++ path ++ "' changed"⟩

def presenceName (p : Presence) : String :=
  match p with
  | .required => "required"
  | .optional => "optional"
  | .defaulted _ => "optional"

/-- Alternatives may be added but not taken away without breaking a configuration. -/
def ofConstraints (old new : ConstraintSet) (path : String) : List SchemaChange :=
  if old = new then []
  else
    let narrowed := old.any fun v => !new.contains v
    [⟨.constraintsChanged, path, narrowed,
      "Accepted expressions of '" ++ path ++ "' were " ++
        if narrowed then "narrowed" else "widened"⟩]

def ofAttribute (old new : AttributeSchema) (path : String) : List SchemaChange :=
  ofConstraints old.constraints new.constraints path ++
    (if old.isRequired = new.isRequired then []
      else [⟨.optionalityChanged, path, new.isRequired,
        "Attribute '" ++ path ++ "' changed from " ++ presenceName old.presence ++ " to " ++
          presenceName new.presence⟩]) ++
    if old.description = new.description then [] else [documentation path]

def addedAttribute (a : AttributeSchema) (path : String) : SchemaChange :=
  ⟨.attributeAdded, path, a.isRequired,
    if a.isRequired then "Required attribute '" ++ path ++ "' was added (breaking)"
    else "Optional attribute '" ++ path ++ "' was added"⟩

def removedAttribute (path : String) : SchemaChange :=
  ⟨.attributeRemoved, path, true, "Attribute '" ++ path ++ "' was removed"⟩

/-- The changes of the listed attributes of a block. -/
def ofAttributes (old new : SortedMap String AttributeSchema) (path : String) :
    List SchemaChange :=
  (old.toList.flatMap fun p =>
    match new.get? p.1 with
    | some a => ofAttribute p.2 a (joinPath path p.1)
    | none => [removedAttribute (joinPath path p.1)]) ++
    (new.toList.filter fun p => !old.contains p.1).map fun p =>
      addedAttribute p.2 (joinPath path p.1)

/-- The changes of the open rule of a block. -/
def ofOpenRule (old new : Option AttributeSchema) (path : String) : List SchemaChange :=
  let rulePath := joinPath path "*"
  match old, new with
  | some a, some b => ofAttribute a b rulePath
  | some _, none =>
    [⟨.attributeRemoved, rulePath, true, "Open attribute rule of '" ++ path ++ "' was removed"⟩]
  | none, some _ =>
    [⟨.attributeAdded, rulePath, false, "Open attribute rule of '" ++ path ++ "' was added"⟩]
  | none, none => []

def limitName (limit : Option UInt64) : String :=
  match limit with
  | none => "unlimited"
  | some n => toString n.toNat

/-- The new limit refuses a number of items that the old one admits. -/
def isTighter (old new : Option UInt64) : Bool :=
  match old, new with
  | _, none => false
  | none, some _ => true
  | some before, some after => decide (after < before)

/-- The changes of a block apart from its nested blocks. -/
def ofBlock (old new : BlockSchema) (path : String) : List SchemaChange :=
  (if old.labels.map (·.name) = new.labels.map (·.name) then []
    else [⟨.blockChanged, path, true, "Labels of block '" ++ path ++ "' changed"⟩]) ++
    (if old.maxItems = new.maxItems then []
      else [⟨.blockChanged, path, isTighter old.maxItems new.maxItems,
        "Item limit of block '" ++ path ++ "' changed from " ++ limitName old.maxItems ++ " to " ++
          limitName new.maxItems⟩]) ++
    (if old.reference = new.reference then []
      else [⟨.blockChanged, path, old.reference.isSome,
        "Reference published by block '" ++ path ++ "' changed"⟩]) ++
    (if old.description = new.description then [] else [documentation path]) ++
    ofAttributes old.attributes new.attributes path ++
    ofOpenRule old.openRule new.openRule path

def removedBlock (path : String) : SchemaChange :=
  ⟨.blockRemoved, path, true, "Block '" ++ path ++ "' was removed"⟩

def addedBlock (path : String) : SchemaChange :=
  ⟨.blockAdded, path, false, "Block '" ++ path ++ "' was added"⟩

/-- The blocks of the new map that the old one has not. -/
def addedBlocks (old new : BlockMap) (path : String) : List SchemaChange :=
  (new.keys.filter fun name => !old.contains name).map fun name => addedBlock (joinPath path name)

end SchemaChange

namespace BlockSchema

mutual

/-- The changes from the first block to the second one. -/
def changes : BlockSchema → BlockSchema → String → List SchemaChange
  | ⟨labels, attributes, openRule, blocks, maxItems, reference, description⟩, new, path =>
    SchemaChange.ofBlock ⟨labels, attributes, openRule, blocks, maxItems, reference, description⟩
      new path ++
      nestedChanges blocks new.blocks path ++ SchemaChange.addedBlocks blocks new.blocks path
termination_by structural old => old

/-- The changes of the blocks of a map that are kept or removed in another map. -/
def nestedChanges {lo : Option String} :
    Entries String BlockSchema lo → BlockMap → String → List SchemaChange
  | .nil, _, _ => []
  | .cons name _ old rest, news, path =>
    (match news.get? name with
      | some new => old.changes new (SchemaChange.joinPath path name)
      | none => [SchemaChange.removedBlock (SchemaChange.joinPath path name)]) ++
      nestedChanges rest news path
termination_by structural olds => olds

end

end BlockSchema

namespace SchemaTree

/-- The changes from the first tree to the second one. -/
def changes (old new : SchemaTree) : List SchemaChange :=
  BlockSchema.nestedChanges old.blocks new.blocks "" ++
    SchemaChange.addedBlocks old.blocks new.blocks ""

end SchemaTree

end ConfigSchema
