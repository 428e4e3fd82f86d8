import ConfigSchema.Proofs.Diff.Completeness
import ConfigSchema.Proofs.Evolution.Edits

/-!
Where changes are reported. What two schemas share contributes nothing, so the report on other
blocks below a path is the report on these blocks, under the path. Main statements:
`ReplacedAt.changes_eq` and `AttributesReplacedAt.changes_eq`, and
`BlockSchema.isAtOrBelow_of_mem_changes`, by which a block is reported at its path or below it.
-/

namespace ConfigSchema

namespace Entries

variable {α γ : Type} {kept : String → α → α → List γ} {removed added : String → α → γ}
  {m : SortedMap String α} {k : String} {v : α}

/-- The differences between two maps: what is kept or removed, by the keys of the first map, and
then what is added. -/
def differences (kept : String → α → α → List γ) (removed added : String → α → γ)
    (old new : SortedMap String α) : List γ :=
  (old.toList.flatMap fun p =>
    match new.get? p.1 with
    | some w => kept p.1 p.2 w
    | none => [removed p.1 p.2]) ++
    (new.toList.filter fun p => !old.contains p.1).map fun p => added p.1 p.2

theorem mem_differences {old new : SortedMap String α} {c : γ} :
    c ∈ differences kept removed added old new ↔
      (∃ k v w, old.get? k = some v ∧ new.get? k = some w ∧ c ∈ kept k v w) ∨
      (∃ k v, old.get? k = some v ∧ new.get? k = none ∧ c = removed k v) ∨
      ∃ k w, new.get? k = some w ∧ old.get? k = none ∧ c = added k w := by
  rw [differences, List.mem_append, List.mem_flatMap, List.mem_map, ← or_assoc]
  refine or_congr ?_ ?_
  · constructor
    · rintro ⟨⟨k, v⟩, hp, hc⟩
      have hv := get?_eq_some_iff.2 hp
      cases hw : new.get? k with
      | some w =>
          rw [hw] at hc
          exact .inl ⟨k, v, w, hv, hw, hc⟩
      | none =>
          rw [hw] at hc
          exact .inr ⟨k, v, hv, hw, List.mem_singleton.1 hc⟩
    · rintro (⟨k, v, w, hv, hw, hc⟩ | ⟨k, v, hv, hw, rfl⟩)
      · exact ⟨(k, v), mem_toList_of_get? hv, by rwa [hw]⟩
      · exact ⟨(k, v), mem_toList_of_get? hv, by simp [hw]⟩
  · simp [← get?_eq_some_iff, contains, and_assoc, @eq_comm _ c]

/-- A map with another value for a key differs in this value only, if equal values do not differ. -/
theorem differences_insert (hself : ∀ k v, kept k v v = []) (hv : m.get? k = some v) (w : α) :
    differences kept removed added m (m.insert k w) = kept k v w := by
  have hadded : ((m.insert k w).toList.filter fun p => !m.contains p.1) = [] := by
    refine List.filter_eq_nil_iff.2 fun p hp => ?_
    have hget := get?_eq_some_iff.2 hp
    rw [get?_insert] at hget
    split at hget
    next e => simp [contains, ← e, hv]
    next => simp [contains, hget]
  rw [differences, hadded, List.map_nil, List.append_nil, flatMap_toList_of_get? hv]
  · simp
  · intro j x hx hne
    rw [get?_insert_of_ne _ hne.symm, hx]
    exact hself j x

theorem differences_insert_new (hself : ∀ k v, kept k v v = []) (hk : m.get? k = none) (v : α) :
    differences kept removed added m (m.insert k v) = [added k v] := by
  rw [differences, List.flatMap_eq_nil_iff.2 fun p hp => ?_, filter_toList_insert hk]
  · rfl
  · -- the values that were there are the same
    have hget := get?_eq_some_iff.2 hp
    have hne : k ≠ p.1 := by
      rintro rfl
      cases hk.symm.trans hget
    rw [get?_insert_of_ne _ hne, hget]
    exact hself p.1 p.2

theorem differences_erase (hself : ∀ k v, kept k v v = []) (hv : m.get? k = some v) :
    differences kept removed added m (m.erase k) = [removed k v] := by
  have hadded : ((m.erase k).toList.filter fun p => !m.contains p.1) = [] := by
    refine List.filter_eq_nil_iff.2 fun p hp => ?_
    have hget := get?_eq_some_iff.2 hp
    rw [get?_erase] at hget
    split at hget
    next => cases hget
    next => simp [contains, hget]
  rw [differences, hadded, List.map_nil, List.append_nil, flatMap_toList_of_get? hv]
  · simp
  · intro j x hx hne
    rw [get?_erase_of_ne _ hne.symm, hx]
    exact hself j x

end Entries

namespace SchemaChange

theorem joinPath_of_ne {path : String} (h : path ≠ "") (name : String) :
    joinPath path name = path ++ "." ++ name := by
  have hnonempty : path.isEmpty = false := by simpa using h
  simp [joinPath, hnonempty]

theorem joinPath_ne {path : String} (h : path ≠ "") (name : String) : joinPath path name ≠ "" := by
  rw [joinPath_of_ne h]
  intro e
  have hlength := congrArg String.length e
  simp at hlength

/-- Below a path that is not empty, names are joined by points. -/
theorem foldl_joinPath_of_ne {path : String} (h : path ≠ "") (names : List String) :
    names.foldl joinPath path = (RefPath.mk (path :: names)).text := by
  induction names generalizing path with
  | nil => rw [List.foldl_nil, RefPath.text_singleton]
  | cons name names ih =>
      rw [List.foldl_cons, ih (joinPath_ne h name), joinPath_of_ne h]
      rw [RefPath.text_cons (List.cons_ne_nil name names)]
      cases names with
      | nil => rw [RefPath.text_singleton, RefPath.text_singleton]
      | cons next names =>
          have hnext : next :: names ≠ [] := List.cons_ne_nil next names
          rw [RefPath.text_cons hnext, RefPath.text_cons hnext]
          simp only [String.append_assoc]

/-- The path of a report is the dotted text of the names, unless the first of them is empty. -/
theorem foldl_joinPath {names : List String} (h : names.head? ≠ some "") :
    names.foldl joinPath "" = (RefPath.mk names).text := by
  cases names with
  | nil => rfl
  | cons name names => exact foldl_joinPath_of_ne (fun e => h (congrArg some e)) names

theorem foldl_joinPath_ne_of_ne {path : String} (h : path ≠ "") (names : List String) :
    names.foldl joinPath path ≠ "" := by
  induction names generalizing path with
  | nil => exact h
  | cons name names ih => exact ih (joinPath_ne h name)

theorem foldl_joinPath_ne {names : List String} (hnames : names ≠ [])
    (h : names.head? ≠ some "") : names.foldl joinPath "" ≠ "" := by
  cases names with
  | nil => exact absurd rfl hnames
  | cons name names => exact foldl_joinPath_ne_of_ne (fun e => h (congrArg some e)) names

theorem ofAttribute_self (a : AttributeSchema) (path : String) : ofAttribute a a path = [] :=
  ofAttribute_eq_nil_iff.2 rfl

/-- Of an attribute with other constraints nothing else is reported. -/
theorem ofAttribute_constraints (a : AttributeSchema) (set : ConstraintSet) (path : String) :
    ofAttribute a { a with constraints := set } path = ofConstraints a.constraints set path := by
  simp [ofAttribute, AttributeSchema.isRequired]

theorem ofAttributes_eq_differences (old new : SortedMap String AttributeSchema) (path : String) :
    ofAttributes old new path = Entries.differences
      (fun name a b => ofAttribute a b (joinPath path name))
      (fun name _ => removedAttribute (joinPath path name))
      (fun name a => addedAttribute a (joinPath path name)) old new := by
  rw [ofAttributes, Entries.differences]
  congr 2
  funext p
  cases new.get? p.1 <;> rfl

section Attributes

variable {as : SortedMap String AttributeSchema} {name : String} {a : AttributeSchema}

theorem ofAttributes_insert (ha : as.get? name = some a) (b : AttributeSchema) (path : String) :
    ofAttributes as (as.insert name b) path = ofAttribute a b (joinPath path name) := by
  rw [ofAttributes_eq_differences, Entries.differences_insert _ ha]
  exact fun _ x => ofAttribute_self x _

theorem ofAttributes_insert_new (hnew : as.get? name = none) (a : AttributeSchema)
    (path : String) :
    ofAttributes as (as.insert name a) path = [addedAttribute a (joinPath path name)] := by
  rw [ofAttributes_eq_differences, Entries.differences_insert_new _ hnew]
  exact fun _ x => ofAttribute_self x _

theorem ofAttributes_erase (ha : as.get? name = some a) (path : String) :
    ofAttributes as (as.erase name) path = [removedAttribute (joinPath path name)] := by
  rw [ofAttributes_eq_differences, Entries.differences_erase _ ha]
  exact fun _ x => ofAttribute_self x _

end Attributes

/-- The change is reported at a path, or at one that goes on after it with a point. -/
def IsAtOrBelow (c : SchemaChange) (path : String) : Prop :=
  c.path = path ∨ ∃ rest, c.path = path ++ "." ++ rest

theorem isAtOrBelow_of_eq_joinPath {c : SchemaChange} {path name : String} (h : path ≠ "")
    (hc : c.path = joinPath path name) : c.IsAtOrBelow path :=
  .inr ⟨name, by rw [hc, joinPath_of_ne h]⟩

theorem IsAtOrBelow.of_joinPath {c : SchemaChange} {path name : String} (h : path ≠ "")
    (hc : c.IsAtOrBelow (joinPath path name)) : c.IsAtOrBelow path := by
  rcases hc with hc | ⟨rest, hc⟩
  · exact isAtOrBelow_of_eq_joinPath h hc
  · refine .inr ⟨name ++ "." ++ rest, ?_⟩
    rw [hc, joinPath_of_ne h]
    simp only [String.append_assoc]

theorem path_of_mem_ofAttribute {old new : AttributeSchema} {path : String} {c : SchemaChange}
    (hc : c ∈ ofAttribute old new path) : c.path = path := by
  simp only [ofAttribute, ofConstraints, documentation, List.mem_append, List.mem_ite_nil_left,
    List.mem_singleton] at hc
  rcases hc with (⟨-, rfl⟩ | ⟨-, rfl⟩) | ⟨-, rfl⟩ <;> rfl

theorem path_of_mem_ofAttributes {old new : SortedMap String AttributeSchema} {path : String}
    {c : SchemaChange} (hc : c ∈ ofAttributes old new path) :
    ∃ name, c.path = joinPath path name := by
  rw [ofAttributes_eq_differences, Entries.mem_differences] at hc
  rcases hc with ⟨name, a, b, -, -, hc⟩ | ⟨name, a, -, -, rfl⟩ | ⟨name, a, -, -, rfl⟩
  · exact ⟨name, path_of_mem_ofAttribute hc⟩
  · exact ⟨name, rfl⟩
  · exact ⟨name, rfl⟩

theorem path_of_mem_ofOpenRule {old new : Option AttributeSchema} {path : String}
    {c : SchemaChange} (hc : c ∈ ofOpenRule old new path) : c.path = joinPath path "*" := by
  unfold ofOpenRule at hc
  split at hc
  next => exact path_of_mem_ofAttribute hc
  next => rw [List.mem_singleton.1 hc]
  next => rw [List.mem_singleton.1 hc]
  next => cases hc

theorem isAtOrBelow_of_mem_ofBlock {old new : BlockSchema} {path : String} (h : path ≠ "")
    {c : SchemaChange} (hc : c ∈ ofBlock old new path) : c.IsAtOrBelow path := by
  simp only [ofBlock, documentation, List.mem_append, List.mem_ite_nil_left,
    List.mem_singleton] at hc
  rcases hc with ((((⟨-, rfl⟩ | ⟨-, rfl⟩) | ⟨-, rfl⟩) | ⟨-, rfl⟩) | hc) | hc
  · exact .inl rfl
  · exact .inl rfl
  · exact .inl rfl
  · exact .inl rfl
  · obtain ⟨name, hc⟩ := path_of_mem_ofAttributes hc
    exact isAtOrBelow_of_eq_joinPath h hc
  · exact isAtOrBelow_of_eq_joinPath h (path_of_mem_ofOpenRule hc)

theorem ofOpenRule_self (rule : Option AttributeSchema) (path : String) :
    ofOpenRule rule rule path = [] :=
  ofOpenRule_eq_nil_iff.2 rfl

/-- Blocks that differ in their nested blocks only have no changes of their own. -/
theorem ofBlock_blocks (b : BlockSchema) (blocks : BlockMap) (path : String) :
    ofBlock b { b with blocks := blocks } path = [] := by
  have hattributes : ofAttributes b.attributes b.attributes path = [] :=
    ofAttributes_eq_nil_iff.2 rfl
  simp [ofBlock, hattributes, ofOpenRule_self]

theorem ofBlock_attributes (b : BlockSchema) (as : SortedMap String AttributeSchema)
    (path : String) :
    ofBlock b { b with attributes := as } path = ofAttributes b.attributes as path := by
  simp [ofBlock, ofOpenRule_self]

end SchemaChange

open SchemaChange

namespace BlockSchema

theorem changes_self (b : BlockSchema) (path : String) : b.changes b path = [] :=
  (changes_eq_nil_iff b b path).2 rfl

theorem nestedChanges_eq_flatMap {lo : Option String} (olds : Entries String BlockSchema lo)
    (news : BlockMap) (path : String) :
    nestedChanges olds news path = olds.toList.flatMap fun p => match news.get? p.1 with
      | some new => p.2.changes new (joinPath path p.1)
      | none => [removedBlock (joinPath path p.1)] := by
  induction olds with
  | nil => rfl
  | cons name above b rest ih =>
      rw [Entries.toList_cons, List.flatMap_cons, ← ih]
      rfl

end BlockSchema

namespace BlockMap

/-- The changes from the first map of blocks to the second one, below a path. -/
def changes (old new : BlockMap) (path : String) : List SchemaChange :=
  BlockSchema.nestedChanges old new path ++ addedBlocks old new path

theorem changes_eq_differences (old new : BlockMap) (path : String) :
    old.changes new path = Entries.differences
      (fun name b b' => b.changes b' (joinPath path name))
      (fun name _ => removedBlock (joinPath path name))
      (fun name _ => addedBlock (joinPath path name)) old new := by
  rw [changes, BlockSchema.nestedChanges_eq_flatMap, addedBlocks, Entries.keys_eq_map_toList,
    List.filter_map, List.map_map, Entries.differences]
  congr 2
  funext p
  cases new.get? p.1 <;> rfl

theorem changes_self (m : BlockMap) (path : String) : m.changes m path = [] := by
  rw [changes, List.append_eq_nil_iff, addedBlocks_eq_nil_iff, BlockSchema.nestedChanges_eq_nil_iff]
  exact ⟨fun name b hb => ⟨b, hb, b.changes_self _⟩,
    fun name b hb => Entries.contains_iff.2 ⟨b, hb⟩⟩

/-- Only the block in place of which there is another one has changes. -/
theorem changes_insert {m : BlockMap} {name : String} {b : BlockSchema} (hb : m.get? name = some b)
    (b' : BlockSchema) (path : String) :
    m.changes (m.insert name b') path = b.changes b' (joinPath path name) := by
  rw [changes_eq_differences, Entries.differences_insert _ hb]
  exact fun _ n => n.changes_self _

theorem changes_insert_new {m : BlockMap} {name : String} (hnew : m.get? name = none)
    (b : BlockSchema) (path : String) :
    m.changes (m.insert name b) path = [addedBlock (joinPath path name)] := by
  rw [changes_eq_differences, Entries.differences_insert_new _ hnew]
  exact fun _ n => n.changes_self _

end BlockMap

theorem BlockSchema.changes_eq_append (old new : BlockSchema) (path : String) :
    old.changes new path = ofBlock old new path ++ BlockMap.changes old.blocks new.blocks path := by
  rw [BlockSchema.changes_eq, List.append_assoc, BlockMap.changes]

/-- What is nested in a block is reported below it, at every depth. -/
theorem BlockSchema.isAtOrBelow_of_mem_changes {old new : BlockSchema} {path : String}
    (h : path ≠ "") {c : SchemaChange} (hc : c ∈ old.changes new path) : c.IsAtOrBelow path := by
  induction old using induct generalizing new path with
  | block old ih =>
      rw [changes_eq_append, List.mem_append] at hc
      rcases hc with hc | hc
      · exact isAtOrBelow_of_mem_ofBlock h hc
      · rw [BlockMap.changes_eq_differences, Entries.mem_differences] at hc
        rcases hc with ⟨name, b, b', hb, -, hc⟩ | ⟨name, b, -, -, rfl⟩ | ⟨name, b, -, -, rfl⟩
        · exact (ih name b hb (joinPath_ne h name) hc).of_joinPath h
        · exact isAtOrBelow_of_eq_joinPath h rfl
        · exact isAtOrBelow_of_eq_joinPath h rfl

namespace BlockMap

/-- The changes of a map with other blocks below a path are those of these blocks. -/
theorem ReplacedAt.changes_eq {inner inner' m m' : BlockMap} {names : List String}
    (h : ReplacedAt inner inner' names m m') (path : String) :
    m.changes m' path = inner.changes inner' (names.foldl joinPath path) := by
  induction h generalizing path with
  | here => rfl
  | within hb _ ih =>
      rw [changes_insert hb, BlockSchema.changes_eq_append, ofBlock_blocks, List.nil_append, ih,
        List.foldl_cons]

theorem AttributesReplacedAt.changes_eq {b : BlockSchema} {as : SortedMap String AttributeSchema}
    {names : List String} {m m' : BlockMap} (h : AttributesReplacedAt b as names m m')
    (path : String) :
    m.changes m' path = ofAttributes b.attributes as (names.foldl joinPath path) := by
  obtain ⟨parents, name, inner, rfl, hb, h⟩ := h
  rw [h.changes_eq, changes_insert hb, BlockSchema.changes_eq_append, ofBlock_attributes,
    changes_self, List.append_nil, List.foldl_append, List.foldl_cons, List.foldl_nil]

end BlockMap

end ConfigSchema
