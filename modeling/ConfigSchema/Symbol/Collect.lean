import ConfigSchema.Schema.Basic
import ConfigSchema.Symbol.Table

/-!
Collecting the symbols that the blocks of a document publish. The type of a symbol may depend on
other symbols, so the pass over the document is repeated until the table stays the same; a chain of
references through all symbols settles after as many passes as there are symbols.
-/

namespace ConfigSchema

/-- One reference at work: that of a block, or that of its attribute `name`. -/
structure Publication where
  block : BlockInstance
  name : Option String
  reference : Reference

namespace Publication

/-- What a block publishes: itself, then its attributes in the order of their names. -/
def ofBlock (tree : SchemaTree) (b : BlockInstance) : List Publication :=
  match tree.block? b.blockType with
  | none => []
  | some schema =>
    (match schema.reference with
      | some r => [⟨b, none, r⟩]
      | none => []) ++
    b.attributes.keys.filterMap fun name =>
      (schema.attributeFor? name).bind fun a => a.reference.map fun r => ⟨b, some name, r⟩

/-- What the blocks of a document publish, in the order of the document. -/
def ofDocument (tree : SchemaTree) (bs : List BlockInstance) : List Publication :=
  bs.flatMap (ofBlock tree)

def resolve (p : Publication) : Resolution := p.reference.resolve p.block p.name

/-- The type of the symbol when the symbols of a table are known. -/
def type (p : Publication) (known : SymbolTable) : ValueType :=
  (p.reference.infer known.valueType p.block p.name).effectiveType

/-- The table with the symbol, or with the reason why there is none. -/
def addTo (known table : SymbolTable) (p : Publication) : SymbolTable :=
  match p.resolve with
  | .ok path => table.insert ⟨p.reference.scope, path, p.type known, p.block.blockType⟩
  | .error reason => table.skip ⟨p.block.blockType, p.name, reason⟩

end Publication

namespace SymbolTable

/-- The table of the publications, with the types that follow from the known symbols. -/
def pass (ps : List Publication) (known : SymbolTable) : SymbolTable :=
  ps.foldl (Publication.addTo known) empty

/-- At most `n` further passes, as long as they change the table. -/
def settle (ps : List Publication) : Nat → SymbolTable → SymbolTable
  | 0, t => t
  | n + 1, t =>
    let next := pass ps t
    if next = t then t else settle ps n next

/-- The symbols that the blocks of a document publish. -/
def collect (tree : SchemaTree) (bs : List BlockInstance) : SymbolTable :=
  let ps := Publication.ofDocument tree bs
  let first := pass ps empty
  settle ps (first.size + 1) first

/-- The collected symbols, unless the program stops on the address of one of them. -/
def collect? (tree : SchemaTree) (bs : List BlockInstance) : Option SymbolTable :=
  if (Publication.ofDocument tree bs).any (·.resolve.stops) then none else some (collect tree bs)

end SymbolTable

end ConfigSchema
