import ConfigSchema.BlockInstance

/-!
Address templates: how the path of a block, or of one of its attributes, is made up. Documents are
resolved while they are being edited, so an address that cannot be computed has a reason and is no
error of the schema. The segments that come from labels and values are never empty and never hold a
point.
-/

namespace ConfigSchema

inductive AddressStep
  /-- A fixed segment. -/
  | fixed (segment : String)
  /-- The label at an index. -/
  | label (index : UInt64)
  /-- The literal value of an attribute; an optional one may be absent and is then left out. -/
  | attributeValue (name : String) (isOptional : Bool)
  /-- The name of the addressed attribute. -/
  | attributeName
  deriving DecidableEq

/-- The steps of a template in the order of the segments. -/
abbrev Address := List AddressStep

/-- Why an address cannot be computed. -/
inductive Unresolved
  /-- There are fewer labels than the address reads. -/
  | tooFewLabels (needed found : UInt64)
  /-- A label is empty or holds a point. -/
  | invalidLabel (index : UInt64)
  | attributeAbsent (name : String)
  /-- The attribute has no scalar value that is known. -/
  | attributeNotLiteral (name : String)
  /-- The name of an attribute is asked for where none is addressed. -/
  | noAttributeName
  /-- There is no template. -/
  | noAddress
  /-- There are fewer labels than the address reads, and the number of those that it needs is no word
  of 64 bits. The program stops here, so this reason is never written. -/
  | overflow
  deriving DecidableEq

/-- The path of a block or attribute, or why there is none. -/
abbrev Resolution := Except Unresolved RefPath

/-- The program stops instead of giving a path or a reason. -/
def Resolution.stops : Resolution → Bool
  | .error .overflow => true
  | _ => false

theorem Resolution.stops_iff {r : Resolution} : r.stops = true ↔ r = .error .overflow := by
  unfold stops
  split <;> simp_all

def Unresolved.message : Unresolved → String
  | tooFewLabels needed found =>
    "expected at least " ++ toString needed.toNat ++ " label(s), found " ++ toString found.toNat
  | invalidLabel index => "label " ++ toString index.toNat ++ " cannot be used as a path segment"
  | attributeAbsent name => "attribute '" ++ name ++ "' is absent"
  | attributeNotLiteral name => "attribute '" ++ name ++ "' is not a literal value"
  | noAttributeName => "no attribute name to address"
  | noAddress => "no address template"
  | overflow => "attempt to add with overflow"

/-- The segment that a value contributes: a text that is a segment, a number without a point in its
text, or a truth value. -/
def AttributeValue.segment? : AttributeValue → Option String
  | literal (.string s) => if RefPath.isSegment s then some s else none
  | literal (.number n) =>
    let s := String.ofList n.text
    if RefPath.isSegment s then some s else none
  | literal (.bool b) => some (if b then "true" else "false")
  | _ => none

namespace Address

/-- The largest index that a word of 64 bits holds. -/
def lastIndex : UInt64 := 18446744073709551615

/-- One more than an index, if that is a word of 64 bits. -/
def successor? (index : UInt64) : Option UInt64 :=
  if index = lastIndex then none else some (index + 1)

/-- One more than the largest index of a label that the address reads. The sums are checked, so there
is no number if one of them is no word. -/
def requiredLabels : Address → Option UInt64
  | [] => some 0
  | .label index :: steps => do return max (← successor? index) (← requiredLabels steps)
  | _ :: steps => requiredLabels steps

/-- What one step contributes to the path of a block, or of its attribute `name`. The number of
needed labels is asked for where one is missing. -/
def segment? (needed : Option UInt64) (b : BlockInstance) (name : Option String) :
    AddressStep → Except Unresolved (Option String)
  | .fixed segment => .ok (some segment)
  | .label index =>
    match b.labels[index.toNat]? with
    | some label =>
      if RefPath.isSegment label then .ok (some label) else .error (.invalidLabel index)
    | none =>
      match needed with
      | some needed => .error (.tooFewLabels needed (UInt64.ofNat b.labels.length))
      | none => .error .overflow
  | .attributeValue a isOptional =>
    match b.attribute? a with
    | some v =>
      match v.segment? with
      | some segment => .ok (some segment)
      | none => .error (.attributeNotLiteral a)
    | none => if isOptional then .ok none else .error (.attributeAbsent a)
  | .attributeName =>
    match name with
    | some name => .ok (some name)
    | none => .error .noAttributeName

/-- The path that the template gives, or the reason of the first step that fails. -/
def resolve (address : Address) (b : BlockInstance) (name : Option String) : Resolution :=
  (address.mapM (segment? address.requiredLabels b name)).map fun segments =>
    ⟨segments.filterMap id⟩

end Address

end ConfigSchema
