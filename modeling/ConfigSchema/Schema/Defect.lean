import ConfigSchema.Schema.Basic
import ConfigSchema.SchemaError

/-!
Defects of schemas, in the order in which they are looked for: the reference of a block, its
attributes, its open rule and its nested blocks. A tree is valid when it has none, and the first one
is reported otherwise.
-/

namespace ConfigSchema

/-- The step cannot be left out. -/
def AddressStep.isMandatory : AddressStep → Bool
  | .attributeValue _ true => false
  | _ => true

namespace BlockSchema

/-- What is wrong with a step of an address in the block; only under an open rule is there an
attribute name to address. -/
def stepDefects (b : BlockSchema) (path : String) (isOpen : Bool) : AddressStep → List SchemaError
  | .fixed _ => []
  | .label index =>
    if b.labels.length ≤ index.toNat then [.labelOutOfRange path index b.labels.length] else []
  | .attributeValue name _ =>
    if b.knowsAttribute name then [] else [.unknownAddressAttribute path name]
  | .attributeName => if isOpen then [] else [.misplacedAttributeName path]

def addressDefects (b : BlockSchema) (path : String) (isOpen : Bool) (address : Address) :
    List SchemaError :=
  (if address.any (·.isMandatory) then [] else [.emptyAddress path]) ++
    address.flatMap (b.stepDefects path isOpen)

def ruleDefects (b : BlockSchema) (path : String) (rule : TypeRule) : List SchemaError :=
  match rule.source? with
  | none => []
  | some name => if b.knowsAttribute name then [] else [.unknownTypeSource path name]

def referenceDefects (b : BlockSchema) (path : String) (isOpen : Bool) (r : Reference) :
    List SchemaError :=
  (match r.address with
    | none => []
    | some address => b.addressDefects path isOpen address) ++
    r.rules.flatMap (b.ruleDefects path)

def attributeDefects (b : BlockSchema) (path : String) (isOpen : Bool) (a : AttributeSchema) :
    List SchemaError :=
  (if a.constraints.allSets.any List.isEmpty then [.emptyConstraints path] else []) ++
    match a.reference with
    | none => []
    | some r => b.referenceDefects path isOpen r

/-- The defects of a block without those of its nested blocks. -/
def ownDefects (b : BlockSchema) (path : String) : List SchemaError :=
  (match b.reference with
    | none => []
    | some r => b.referenceDefects (path ++ "#reference") false r) ++
    (b.attributes.toList.flatMap fun p => b.attributeDefects (path ++ "." ++ p.1) false p.2) ++
    match b.openRule with
    | none => []
    | some a =>
      (if a.isDependencyKey then [.dependencyKeyOnOpenRule (path ++ ".*")] else []) ++
        b.attributeDefects (path ++ ".*") true a

mutual

def defects : BlockSchema → String → List SchemaError
  | ⟨labels, attributes, openRule, blocks, maxItems, reference, description⟩, path =>
    ownDefects ⟨labels, attributes, openRule, blocks, maxItems, reference, description⟩ path ++
      nestedDefects blocks (path ++ ".")

/-- The defects of blocks whose paths begin with the given text. -/
def nestedDefects {lo : Option String} : Entries String BlockSchema lo → String → List SchemaError
  | .nil, _ => []
  | .cons name _ b rest, start => b.defects (start ++ name) ++ nestedDefects rest start

end

end BlockSchema

namespace SchemaTree

def defects (t : SchemaTree) : List SchemaError := BlockSchema.nestedDefects t.blocks ""

/-- A tree without defects is valid; otherwise the first defect is the error. -/
def validate (t : SchemaTree) : Except SchemaError Unit :=
  match t.defects with
  | [] => .ok ()
  | e :: _ => .error e

end SchemaTree

end ConfigSchema
