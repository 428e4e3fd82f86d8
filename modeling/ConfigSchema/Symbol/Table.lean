import ConfigSchema.Candidate
import ConfigSchema.Reference.Basic
import ConfigSchema.SortedMap.Lemmas

/-!
Tables of published symbols. Every symbol stands under its own path, and the first one published
under a path stays. A reference leads to the symbol with the longest path on its way, and has the
type of the symbol only if it ends there.
-/

namespace ConfigSchema

/-- A symbol that a block publishes. -/
structure PublishedSymbol where
  scope : Scope
  path : RefPath
  type : ValueType
  blockType : String
  deriving DecidableEq

/-- A block, or an attribute of it, whose address cannot be computed. -/
structure SkippedSymbol where
  blockType : String
  name : Option String
  reason : Unresolved
  deriving DecidableEq

structure SymbolTable where
  symbols : SortedMap RefPath PublishedSymbol
  skipped : List SkippedSymbol
  /-- Every symbol stands under its own path. -/
  keyed : ∀ path s, symbols.get? path = some s → s.path = path
  deriving DecidableEq

namespace SymbolTable

def empty : SymbolTable := ⟨.nil, [], nofun⟩

def get? (t : SymbolTable) (path : RefPath) : Option PublishedSymbol := t.symbols.get? path

/-- The symbols in the order of their paths. -/
def toList (t : SymbolTable) : List PublishedSymbol := t.symbols.values

def size (t : SymbolTable) : Nat := t.symbols.size

def inScope (t : SymbolTable) (scope : Scope) : List PublishedSymbol :=
  t.toList.filter fun s => s.scope == scope

theorem keyed_insert (t : SymbolTable) (s : PublishedSymbol) :
    ∀ path s', (t.symbols.insert s.path s).get? path = some s' → s'.path = path := by
  intro path s' h
  rw [Entries.get?_insert] at h
  split at h
  next hpath => exact Option.some.inj h ▸ hpath
  next => exact t.keyed path s' h

/-- The table with a symbol under its path, unless the path is taken. -/
def insert (t : SymbolTable) (s : PublishedSymbol) : SymbolTable :=
  if t.symbols.contains s.path then t
  else { t with symbols := t.symbols.insert s.path s, keyed := t.keyed_insert s }

def skip (t : SymbolTable) (s : SkippedSymbol) : SymbolTable :=
  { t with skipped := t.skipped ++ [s] }

/-- The symbols whose paths are parts of the given path from its start. -/
def onTheWay (t : SymbolTable) (path : RefPath) : List PublishedSymbol :=
  t.toList.filter fun s => s.path.isPrefixOf path

/-- Of the symbols on the way the one with the longest path. If there were several, it would be the
last of them. -/
def resolve (t : SymbolTable) (path : RefPath) : Option PublishedSymbol :=
  (t.onTheWay path).reverse.maxOn? fun s => s.path.segments.length

/-- A reference as a candidate; what lies beyond a symbol has an unknown type. -/
def candidateFor (t : SymbolTable) (path : RefPath) : Candidate :=
  match t.resolve path with
  | some s => .traversal (some s.scope) (if s.path = path then s.type else .dynamic)
  | none => .unresolved

/-- The value of an attribute as a candidate. -/
def candidate (t : SymbolTable) : AttributeValue → Candidate
  | .literal j => .ofValue j
  | .reference path => t.candidateFor path
  | .typeExpression type => .typeExpression type
  | .computed => .literal .dynamic

/-- The type of the value of an attribute. -/
def valueType (t : SymbolTable) : AttributeValue → ValueType
  | .literal j => .ofValue j
  | .reference path =>
    match t.resolve path with
    | some s => if s.path = path then s.type else .dynamic
    | none => .dynamic
  | .typeExpression _ => .dynamic
  | .computed => .dynamic

end SymbolTable

end ConfigSchema
