import ConfigSchema.Proofs.Evolution.Commuting

/-!
When a delta does not apply. Its target has to be there; what it adds must not be there, and what it
removes or replaces must be. Main statement: `Delta.apply_eq_error_iff`, a delta fails exactly in
these cases, and with the error that names the case.
-/

namespace ConfigSchema

namespace Entries

variable {α β ε : Type} {m : SortedMap String α} {k : String} {e e' : ε} {x : β}

theorem ite_contains_error_eq_error_iff :
    (if m.contains k then .error e else .ok x : Except ε β) = .error e' ↔
      m.contains k = true ∧ e' = e := by
  cases m.contains k <;> simp [eq_comm]

theorem ite_contains_ok_eq_error_iff :
    (if m.contains k then .ok x else .error e : Except ε β) = .error e' ↔
      m.contains k = false ∧ e' = e := by
  cases m.contains k <;> simp [eq_comm]

end Entries

namespace BlockMap

variable {missing e : SchemaError} {m : BlockMap}

theorem blocksAt?_of_ne_nil {path : List String} (h : path ≠ []) :
    m.blocksAt? path = (m.at? path).map BlockSchema.blocks := by
  obtain ⟨parents, name, rfl⟩ : ∃ parents name, path = parents ++ [name] :=
    ⟨path.dropLast, path.getLast h, (List.dropLast_append_getLast h).symm⟩
  clear h
  induction parents generalizing m with
  | nil =>
      rw [List.nil_append, blocksAt?, at?]
      cases m.get? name <;> rfl
  | cons next parents ih =>
      rw [List.cons_append, blocksAt?, at?_cons (by simp)]
      cases m.get? next with
      | none => rfl
      | some b => exact ih

theorem updateAt_eq_error_iff {change : BlockMap → Except SchemaError BlockMap}
    {path : List String} : updateAt missing change path m = .error e ↔
      (m.blocksAt? path = none ∧ e = missing) ∨
        ∃ inner, m.blocksAt? path = some inner ∧ change inner = .error e := by
  induction path generalizing m with
  | nil => simp [updateAt, blocksAt?]
  | cons name path ih =>
      rw [updateAt, blocksAt?]
      cases m.get? name with
      | none => simp [eq_comm]
      | some b => exact map_eq_error_iff.trans ih

theorem updateAttributes_eq_error_iff {name : String} {change : SortedMap String AttributeSchema →
      Except SchemaError (SortedMap String AttributeSchema)} :
    updateAttributes missing name change m = .error e ↔
      (m.get? name = none ∧ e = missing) ∨
        ∃ b, m.get? name = some b ∧ change b.attributes = .error e := by
  rw [updateAttributes]
  cases m.get? name with
  | none => simp [eq_comm]
  | some b => simp [map_eq_error_iff]

end BlockMap

namespace Mutation

def isAddition : Mutation → Bool
  | addAttribute .. | addBlock .. => true
  | removeAttribute _ | replaceConstraints .. | replaceBlock .. => false

end Mutation

namespace Delta

variable {d : Delta} {t : SchemaTree} {e : SchemaError}

/-- The block that the delta targets is there. Blocks can also be changed at the top level, which
has no path to it and no attributes. -/
def HasTarget (d : Delta) (t : SchemaTree) : Prop :=
  (d.mutation.isOnBlock = true ∧ d.target = []) ∨ ∃ b, t.blockAt? d.target = some b

/-- The attribute or block that the delta changes is there. -/
def HasElement (d : Delta) (t : SchemaTree) : Prop :=
  if d.mutation.isOnBlock then ∃ b, t.blockAt? d.element = some b
  else ∃ b a, t.blockAt? d.target = some b ∧ b.attributes.get? d.mutation.name = some a

/-- The error for an element that is to be added and is there. -/
def alreadyThere (d : Delta) : SchemaError :=
  if d.mutation.isOnBlock then .duplicateBlock d.mutation.name d.targetPath
  else .duplicateAttribute d.mutation.name d.targetPath

/-- The error for an element that is to be removed or replaced and is not there. -/
def notThere (d : Delta) : SchemaError :=
  if d.mutation.isOnBlock then .missingBlock d.mutation.name d.targetPath
  else .missingAttribute d.mutation.name d.targetPath

/-- The cases in which a delta does not apply, each with its error. -/
inductive Refused (d : Delta) (t : SchemaTree) : SchemaError → Prop
  | noTarget : ¬d.HasTarget t → Refused d t d.missingTarget
  | alreadyThere : d.mutation.isAddition = true → d.HasElement t → Refused d t d.alreadyThere
  | notThere : d.mutation.isAddition = false → d.HasTarget t → ¬d.HasElement t →
    Refused d t d.notThere

/-- Whether the element is there, in a target that is there. -/
def found? (d : Delta) (t : SchemaTree) : Option Bool :=
  if d.mutation.isOnBlock then
    (t.blocks.blocksAt? d.target).map fun blocks => blocks.contains d.mutation.name
  else (t.blockAt? d.target).map fun b => b.attributes.contains d.mutation.name

theorem hasTarget_iff : d.HasTarget t ↔ (d.found? t).isSome = true := by
  unfold HasTarget found? SchemaTree.blockAt?
  rw [← Option.isSome_iff_exists]
  cases d.mutation.isOnBlock with
  | false => simp
  | true =>
      by_cases htarget : d.target = []
      · simp [htarget, BlockMap.blocksAt?]
      · simp [htarget, BlockMap.blocksAt?_of_ne_nil]

theorem hasElement_iff : d.HasElement t ↔ d.found? t = some true := by
  unfold HasElement found? SchemaTree.blockAt? element
  cases d.mutation.isOnBlock with
  | false => simp [Entries.contains_iff]
  | true =>
      rw [BlockMap.at?_concat]
      cases t.blocks.blocksAt? d.target <;> simp [Entries.contains_iff]

/-- What is wrong with an element that is or is not there. -/
def Clashes (d : Delta) (isThere : Bool) (e : SchemaError) : Prop :=
  if d.mutation.isAddition then isThere = true ∧ e = d.alreadyThere
  else isThere = false ∧ e = d.notThere

theorem refused_iff : d.Refused t e ↔ (d.found? t = none ∧ e = d.missingTarget) ∨
    ∃ isThere, d.found? t = some isThere ∧ d.Clashes isThere e := by
  unfold Clashes
  constructor
  · intro h
    cases h with
    | noTarget htarget =>
        rw [hasTarget_iff, Option.not_isSome_iff_eq_none] at htarget
        exact .inl ⟨htarget, rfl⟩
    | alreadyThere hadds helement =>
        exact .inr ⟨true, hasElement_iff.1 helement, by simp [hadds]⟩
    | notThere hadds htarget helement =>
        obtain ⟨isThere, hfound⟩ := Option.isSome_iff_exists.1 (hasTarget_iff.1 htarget)
        rw [hasElement_iff, hfound, Option.some.injEq, Bool.not_eq_true] at helement
        exact .inr ⟨isThere, hfound, by simp [hadds, helement]⟩
  · rintro (⟨hfound, rfl⟩ | ⟨isThere, hfound, hclash⟩)
    · refine .noTarget fun htarget => ?_
      simp [hasTarget_iff, hfound] at htarget
    · split at hclash
      next hadds =>
        obtain ⟨rfl, rfl⟩ := hclash
        exact .alreadyThere hadds (hasElement_iff.2 hfound)
      next hadds =>
        obtain ⟨rfl, rfl⟩ := hclash
        refine .notThere (by simpa using hadds) ?_ fun helement => ?_
        · rw [hasTarget_iff, hfound, Option.isSome_some]
        · cases (hasElement_iff.1 helement).symm.trans hfound

theorem onAttributes_eq_error_iff {change : SortedMap String AttributeSchema →
      Except SchemaError (SortedMap String AttributeSchema)} {m : BlockMap} :
    d.onAttributes change m = .error e ↔ (m.at? d.target = none ∧ e = d.missingTarget) ∨
      ∃ b, m.at? d.target = some b ∧ change b.attributes = .error e := by
  unfold onAttributes
  split
  next hlast =>
    rw [List.getLast?_eq_none_iff] at hlast
    simp [hlast, BlockMap.at?, eq_comm]
  next name hlast =>
    obtain ⟨parents, hpath⟩ := List.getLast?_eq_some_iff.1 hlast
    rw [hpath, List.dropLast_concat, BlockMap.updateAt_eq_error_iff, BlockMap.at?_concat]
    cases m.blocksAt? parents with
    | none => simp
    | some inner => simp [BlockMap.updateAttributes_eq_error_iff]

theorem onAttributes_eq_error_iff_refused (hd : d.mutation.isOnBlock = false)
    {change : SortedMap String AttributeSchema →
      Except SchemaError (SortedMap String AttributeSchema)}
    (hchange : ∀ as, change as = .error e ↔ d.Clashes (as.contains d.mutation.name) e) :
    d.onAttributes change t.blocks = .error e ↔ d.Refused t e := by
  rw [onAttributes_eq_error_iff, refused_iff, found?, if_neg (by simp [hd]), SchemaTree.blockAt?]
  cases t.blocks.at? d.target <;> simp [hchange]

theorem updateAt_eq_error_iff_refused (hd : d.mutation.isOnBlock = true)
    {change : BlockMap → Except SchemaError BlockMap}
    (hchange : ∀ m, change m = .error e ↔ d.Clashes (m.contains d.mutation.name) e) :
    BlockMap.updateAt d.missingTarget change d.target t.blocks = .error e ↔ d.Refused t e := by
  rw [BlockMap.updateAt_eq_error_iff, refused_iff, found?, if_pos hd]
  cases t.blocks.blocksAt? d.target <;> simp [hchange]

/-- A delta fails exactly when it is refused. -/
theorem apply_eq_error_iff : d.apply t = .error e ↔ d.Refused t e := by
  rw [apply, map_eq_error_iff]
  obtain ⟨threshold, target, mutation⟩ := d
  cases mutation with
  | addAttribute name a =>
      exact onAttributes_eq_error_iff_refused rfl fun as => Entries.ite_contains_error_eq_error_iff
  | removeAttribute name =>
      exact onAttributes_eq_error_iff_refused rfl fun as => Entries.ite_contains_ok_eq_error_iff
  | replaceConstraints name set =>
      refine onAttributes_eq_error_iff_refused rfl fun as => ?_
      change _ ↔ as.contains name = false ∧ _
      rw [Entries.contains]
      cases as.get? name <;> simp [eq_comm, notThere, Mutation.isOnBlock, Mutation.name]
  | addBlock name b =>
      exact updateAt_eq_error_iff_refused rfl fun m => Entries.ite_contains_error_eq_error_iff
  | replaceBlock name b =>
      exact updateAt_eq_error_iff_refused rfl fun m => Entries.ite_contains_ok_eq_error_iff

end Delta

end ConfigSchema
