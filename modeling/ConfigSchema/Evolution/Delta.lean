import ConfigSchema.Schema.Basic
import ConfigSchema.SchemaError

/-!
Deltas: changes of a schema from a version of the language onwards. A delta names the block that it
changes by a path; the blocks at the top level are changed at the empty path.
-/

namespace ConfigSchema

/-- A change of one attribute or one nested block of a block. -/
inductive Mutation
  | addAttribute (name : String) (schema : AttributeSchema)
  | removeAttribute (name : String)
  | replaceConstraints (name : String) (set : ConstraintSet)
  | addBlock (name : String) (schema : BlockSchema)
  | replaceBlock (name : String) (schema : BlockSchema)

structure Delta where
  threshold : Version
  target : List String
  mutation : Mutation

namespace BlockMap

/-- The map with the block map at a path changed; `missing` if there is no such block. -/
def updateAt (missing : SchemaError) (change : BlockMap → Except SchemaError BlockMap) :
    List String → BlockMap → Except SchemaError BlockMap
  | [], m => change m
  | name :: rest, m =>
    match m.get? name with
    | none => .error missing
    | some b =>
      (updateAt missing change rest b.blocks).map fun blocks =>
        m.insert name { b with blocks := blocks }

/-- A change of the attributes of one block of the map. -/
def updateAttributes (missing : SchemaError) (name : String)
    (change : SortedMap String AttributeSchema →
      Except SchemaError (SortedMap String AttributeSchema))
    (m : BlockMap) : Except SchemaError BlockMap :=
  match m.get? name with
  | none => .error missing
  | some b => (change b.attributes).map fun as => m.insert name { b with attributes := as }

end BlockMap

namespace Mutation

/-- The name of the attribute or block that is changed. -/
def name : Mutation → String
  | addAttribute name _ => name
  | removeAttribute name => name
  | replaceConstraints name _ => name
  | addBlock name _ => name
  | replaceBlock name _ => name

end Mutation

namespace Delta

/-- Segments joined by points. -/
def dotted (segments : List String) : String := (RefPath.mk segments).text

/-- The path of the attribute or block that is changed. -/
def elementPath (d : Delta) : String := dotted (d.target ++ [d.mutation.name])

/-- The path of the changed block in messages. -/
def targetPath (d : Delta) : String := if d.target.isEmpty then "<root>" else dotted d.target

/-- The error for a target that is not there names its last block and where that should be. -/
def missingTarget (d : Delta) : SchemaError :=
  let parent := dotted d.target.dropLast
  .missingBlock (d.target.getLast?.getD "") (if parent.isEmpty then "<root>" else parent)

/-- A change of the attributes of the target, which the top level has not. -/
def onAttributes (d : Delta)
    (change : SortedMap String AttributeSchema →
      Except SchemaError (SortedMap String AttributeSchema))
    (m : BlockMap) : Except SchemaError BlockMap :=
  match d.target.getLast? with
  | none => .error d.missingTarget
  | some name =>
    BlockMap.updateAt d.missingTarget (BlockMap.updateAttributes d.missingTarget name change)
      d.target.dropLast m

/-- The change on the blocks at the top level. -/
def applyTo (d : Delta) : BlockMap → Except SchemaError BlockMap :=
  match d.mutation with
  | .addAttribute name a => d.onAttributes fun as =>
    if as.contains name then .error (.duplicateAttribute name d.targetPath)
    else .ok (as.insert name a)
  | .removeAttribute name => d.onAttributes fun as =>
    if as.contains name then .ok (as.erase name)
    else .error (.missingAttribute name d.targetPath)
  | .replaceConstraints name set => d.onAttributes fun as =>
    match as.get? name with
    | some a => .ok (as.insert name { a with constraints := set })
    | none => .error (.missingAttribute name d.targetPath)
  | .addBlock name b => BlockMap.updateAt d.missingTarget (fun m =>
    if m.contains name then .error (.duplicateBlock name d.targetPath)
    else .ok (m.insert name b)) d.target
  | .replaceBlock name b => BlockMap.updateAt d.missingTarget (fun m =>
    if m.contains name then .ok (m.insert name b)
    else .error (.missingBlock name d.targetPath)) d.target

/-- The tree after the change. -/
def apply (d : Delta) (t : SchemaTree) : Except SchemaError SchemaTree :=
  (d.applyTo t.blocks).map SchemaTree.mk

end Delta

end ConfigSchema
