import ConfigSchema.Reference.Form
import ConfigSchema.Symbol.Table

/-!
The JSON form of symbol tables. The members of the table are in the order of the paths, of which two
may have the same text.
-/

namespace ConfigSchema

def PublishedSymbol.document (s : PublishedSymbol) : Document :=
  .object [("scope", s.scope.document), ("path", s.path.document), ("ty", s.type.document),
    ("block_type", .string s.blockType)]

def SkippedSymbol.document (s : SkippedSymbol) : Document :=
  .object (("block_type", .string s.blockType) :: Document.memberIf "attribute" .string s.name ++
    [("reason", s.reason.document)])

def SymbolTable.document (t : SymbolTable) : Document :=
  .object [
    ("targets", .object (t.symbols.toList.map fun p => (p.1.text, p.2.document))),
    ("skipped", .array (t.skipped.map (·.document)))]

end ConfigSchema
