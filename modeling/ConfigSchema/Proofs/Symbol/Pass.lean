import ConfigSchema.Proofs.Symbol.LongestPrefix
import ConfigSchema.Symbol.Collect

/-!
One pass over the publications of a document. Of the publications under a path the first one makes
the symbol; its type is either known from the publication alone, or it is what the known symbols say
about one other path.
-/

namespace ConfigSchema

/-- Where the type of a symbol comes from. -/
inductive TypeSource
  /-- The publication alone gives the type. -/
  | known (type : ValueType)
  /-- The type is that of the symbol at a path. -/
  | symbolAt (path : RefPath)

namespace AttributeValue

/-- Where the type of a value comes from; the values that say nothing have the dynamic type. -/
def typeSource : AttributeValue → TypeSource
  | literal j => .known (.ofValue j)
  | reference path => .symbolAt path
  | typeExpression _ => .known .dynamic
  | computed => .known .dynamic

end AttributeValue

namespace Publication

/-- Where the type of the published symbol comes from: a declared type comes before the type of a
value, and without either, or without rules, nothing is known. -/
def typeSource (p : Publication) : TypeSource :=
  if p.reference.rules.isEmpty then .known .dynamic
  else
    match p.reference.rulesByPrecedence.findSome? (·.declared? p.block) with
    | some d => .known d
    | none =>
      match p.reference.rulesByPrecedence.findSome? (·.value? p.block p.name) with
      | some v => v.typeSource
      | none => .known .dynamic

/-- The path under which the symbol is published. -/
def path? (p : Publication) : Option RefPath := p.resolve.toOption

/-- The first publication under a path. -/
def firstAt (ps : List Publication) (path : RefPath) : Option Publication :=
  ps.find? fun p => p.path? = some path

/-- The symbol that a publication makes under a path. -/
def symbol (known : SymbolTable) (path : RefPath) (p : Publication) : PublishedSymbol :=
  ⟨p.reference.scope, path, p.type known, p.block.blockType⟩

end Publication

/-- The type of a symbol, given the types at all paths. -/
def TypeSource.type (typeAt : RefPath → ValueType) : TypeSource → ValueType
  | known type => type
  | symbolAt path => typeAt path

namespace Publication

theorem type_eq (p : Publication) (known : SymbolTable) :
    p.type known = p.typeSource.type fun path => known.valueType (.reference path) := by
  have hv : ∀ v : AttributeValue,
      known.valueType v = v.typeSource.type fun path => known.valueType (.reference path) := by
    intro v
    cases v <;> rfl
  unfold type typeSource Reference.infer
  by_cases hr : p.reference.rules.isEmpty
  · simp [hr, TypeInference.effectiveType, TypeSource.type]
  · simp only [hr, if_false, Bool.false_eq_true]
    cases hd : p.reference.rulesByPrecedence.findSome? (·.declared? p.block) with
    | some d =>
      cases p.reference.rulesByPrecedence.findSome? (·.value? p.block p.name) with
      | none => rfl
      | some v =>
        simp only [Option.map_some]
        split <;> rfl
    | none =>
      cases p.reference.rulesByPrecedence.findSome? (·.value? p.block p.name) with
      | none => rfl
      | some v => exact hv v

theorem get?_addTo (known t : SymbolTable) (p : Publication) (path : RefPath) :
    (p.addTo known t).get? path =
      (t.get? path).or (if p.path? = some path then some (p.symbol known path) else none) := by
  unfold addTo path?
  cases p.resolve with
  | error reason =>
    simp only [Except.toOption, reduceCtorEq, if_false, Option.or_none]
    rfl
  | ok q =>
    rw [SymbolTable.get?_insert]
    simp only [Except.toOption, Option.some.injEq]
    by_cases hq : q = path
    · subst hq
      rfl
    · simp [hq]

end Publication

namespace SymbolTable

theorem get?_foldl_addTo (known t : SymbolTable) (ps : List Publication) (path : RefPath) :
    (ps.foldl (Publication.addTo known) t).get? path =
      (t.get? path).or ((Publication.firstAt ps path).map (Publication.symbol known path)) := by
  induction ps generalizing t with
  | nil => simp [Publication.firstAt]
  | cons p ps ih =>
    rw [List.foldl_cons, ih, Publication.get?_addTo, Option.or_assoc]
    unfold Publication.firstAt
    rw [List.find?_cons]
    by_cases hp : p.path? = some path <;> simp [hp]

/-- The symbol under a path is that of the first publication there. -/
theorem get?_pass (ps : List Publication) (known : SymbolTable) (path : RefPath) :
    (pass ps known).get? path =
      (Publication.firstAt ps path).map (Publication.symbol known path) := by
  simpa [pass, empty, get?] using get?_foldl_addTo known empty ps path

/-- A pass asks the known symbols only for the types that references have. -/
theorem pass_congr {ps : List Publication} {known known' : SymbolTable}
    (h : ∀ path, known.valueType (.reference path) = known'.valueType (.reference path)) :
    pass ps known = pass ps known' := by
  have hadd : Publication.addTo known = Publication.addTo known' := by
    funext t p
    simp only [Publication.addTo, Publication.type_eq, h]
  rw [pass, pass, hadd]

/-- The type that references have after a pass. -/
theorem valueType_pass (ps : List Publication) (known : SymbolTable) (path : RefPath) :
    (pass ps known).valueType (.reference path) =
      match Publication.firstAt ps path with
      | some p => p.typeSource.type fun q => known.valueType (.reference q)
      | none => .dynamic := by
  rw [valueType_reference, get?_pass]
  cases Publication.firstAt ps path with
  | none => rfl
  | some p => exact p.type_eq known

end SymbolTable

end ConfigSchema
