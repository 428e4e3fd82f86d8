import ConfigSchema.Proofs.Evolution.Refusal

/-!
What a delta leaves alone. An observation of blocks in which nested blocks play no part is the same
before and after, except at the place of the delta. Main statement: `Delta.apply_changes_only`, a
delta that applies changes its attribute or its block and nothing else, and it fails exactly when it
is refused.
-/

namespace ConfigSchema

namespace BlockSchema

/-- The block without the blocks that are nested in it. -/
def alone (b : BlockSchema) : BlockSchema := { b with blocks := .nil }

/-- The block without its attributes and nested blocks. -/
def frame (b : BlockSchema) : BlockSchema := { b with attributes := .nil, blocks := .nil }

end BlockSchema

namespace BlockMap

variable {β : Type} {f : BlockSchema → β} {inner inner' m m' : BlockMap} {path : List String}

theorem at?_insert_self (m : BlockMap) (name : String) (b : BlockSchema) {rest : List String}
    (h : rest ≠ []) : at? (m.insert name b) (name :: rest) = at? b.blocks rest := by
  rw [at?_cons h, Entries.get?_insert_self, Option.bind_some]

theorem at?_insert_of_ne (m : BlockMap) {name key : String} (h : name ≠ key) (b : BlockSchema)
    (rest : List String) : at? (m.insert name b) (key :: rest) = m.at? (key :: rest) := by
  by_cases hrest : rest = []
  · subst hrest
    exact Entries.get?_insert_of_ne m h b
  · rw [at?_cons hrest, at?_cons hrest, Entries.get?_insert_of_ne m h]

/-- Another block in place of one is seen at the path of the block and below it only. -/
theorem map_at?_insert {name : String} {b b' : BlockSchema} (hb : m.get? name = some b)
    {p : List String} (hhere : p = [name] → f b' = f b)
    (hbelow : ∀ rest, p = name :: rest →
      (at? b'.blocks rest).map f = (at? b.blocks rest).map f) :
    (at? (m.insert name b') p).map f = (m.at? p).map f := by
  cases p with
  | nil => rfl
  | cons key rest =>
      by_cases hkey : name = key
      · subst hkey
        by_cases hrest : rest = []
        · subst hrest
          have hbefore : m.at? [name] = some b := hb
          have hafter : at? (m.insert name b') [name] = some b' := Entries.get?_insert_self ..
          rw [hbefore, hafter, Option.map_some, Option.map_some, hhere rfl]
        · rw [at?_insert_self m name b' hrest, at?_cons hrest, hb, Option.bind_some]
          exact hbelow rest rfl
      · rw [at?_insert_of_ne m hkey]

theorem ReplacedAt.blocksAt?_after (h : ReplacedAt inner inner' path m m') :
    m'.blocksAt? path = some inner' := by
  induction h with
  | here => rfl
  | within _ _ ih => rw [BlockMap.blocksAt?, Entries.get?_insert_self, Option.bind_some, ih]

/-- What is observed at a path is the same when it is the same below the path where the maps
differ: above that path, a block has other nested blocks at most. -/
theorem ReplacedAt.map_at? (hf : ∀ b blocks, f { b with blocks := blocks } = f b)
    (h : ReplacedAt inner inner' path m m') {p : List String}
    (hinner : ∀ q, p = path ++ q → (inner'.at? q).map f = (inner.at? q).map f) :
    (m'.at? p).map f = (m.at? p).map f := by
  induction h generalizing p with
  | here => exact hinner p rfl
  | within hb _ ih =>
      refine map_at?_insert hb (fun _ => hf _ _) fun rest hp => ih fun q hq => hinner q ?_
      rw [hp, hq, List.cons_append]

theorem AttributesReplacedAt.at?_after {b : BlockSchema} {as : SortedMap String AttributeSchema}
    (h : AttributesReplacedAt b as path m m') : m'.at? path = some { b with attributes := as } := by
  obtain ⟨parents, name, inner, rfl, -, h⟩ := h
  rw [at?_concat, h.blocksAt?_after, Option.bind_some, Entries.get?_insert_self]

theorem AttributesReplacedAt.map_at? (hf : ∀ b blocks, f { b with blocks := blocks } = f b)
    {b : BlockSchema} {as : SortedMap String AttributeSchema}
    (h : AttributesReplacedAt b as path m m') {p : List String}
    (hp : p = path → f { b with attributes := as } = f b) :
    (m'.at? p).map f = (m.at? p).map f := by
  obtain ⟨parents, name, inner, rfl, hb, h⟩ := h
  refine h.map_at? hf fun q hq => ?_
  refine map_at?_insert hb (fun hname => hp ?_) fun _ _ => rfl
  rw [hq, hname]

end BlockMap

namespace Delta

variable {d : Delta} {t u : SchemaTree}

/-- The attribute of the target is changed as the mutation says, and no other one; what blocks there
are, and their labels, open rules, limits, references and descriptions stay. -/
structure ChangesAttributeOnly (d : Delta) (t u : SchemaTree) : Prop where
  changed : ∃ b b', t.blockAt? d.target = some b ∧ u.blockAt? d.target = some b' ∧
    d.mutation.Sets (b.attributes.get? d.mutation.name) (b'.attributes.get? d.mutation.name)
  attributes : ∀ path name, (path, name) ≠ (d.target, d.mutation.name) →
    (u.blockAt? path).map (fun b => b.attributes.get? name) =
      (t.blockAt? path).map fun b => b.attributes.get? name
  frames : ∀ path, (u.blockAt? path).map BlockSchema.frame =
    (t.blockAt? path).map BlockSchema.frame

/-- The block is the one that the mutation gives, and elsewhere there are the same blocks, apart from
what is nested in them. -/
structure ChangesBlockOnly (d : Delta) (new : BlockSchema) (t u : SchemaTree) : Prop where
  changed : u.blockAt? d.element = some new
  elsewhere : ∀ path, ¬d.element <+: path →
    (u.blockAt? path).map BlockSchema.alone = (t.blockAt? path).map BlockSchema.alone

/-- The element of the delta is changed as its mutation says, and nothing else. -/
def ChangesOnly (d : Delta) (t u : SchemaTree) : Prop :=
  match d.mutation with
  | .addBlock _ new | .replaceBlock _ new => d.ChangesBlockOnly new t u
  | .addAttribute .. | .removeAttribute _ | .replaceConstraints .. => d.ChangesAttributeOnly t u

theorem changesAttributeOnly_of_apply (hd : d.mutation.isOnBlock = false)
    (hu : d.apply t = .ok u) : d.ChangesAttributeOnly t u := by
  rw [apply_eq_ok_iff, Mutation.step_iff_sets hd] at hu
  obtain ⟨b, a, hsets, hat⟩ := hu
  refine ⟨⟨b, _, hat.at?, hat.at?_after, ?_⟩, fun path name hne => ?_, fun path => ?_⟩
  · rwa [Entries.get?_put, if_pos rfl]
  · refine hat.map_at? (f := fun b => b.attributes.get? name) (fun _ _ => rfl) fun hpath => ?_
    refine Entries.get?_put_of_ne _ (fun hname => hne ?_) a
    rw [hpath, hname]
  · exact hat.map_at? (fun _ _ => rfl) fun _ => rfl

theorem changesBlockOnly_of_replacedAt {new : BlockSchema} {inner : BlockMap}
    (h : BlockMap.ReplacedAt inner (inner.insert d.mutation.name new) d.target t.blocks u.blocks) :
    d.ChangesBlockOnly new t u := by
  refine ⟨?_, fun path hpath => ?_⟩
  · rw [SchemaTree.blockAt?, element, BlockMap.at?_concat, h.blocksAt?_after, Option.bind_some,
      Entries.get?_insert_self]
  · refine h.map_at? (fun _ _ => rfl) fun q hq => ?_
    cases q with
    | nil => rfl
    | cons key rest =>
        have hkey : d.mutation.name ≠ key := by
          rintro rfl
          exact hpath ⟨rest, by rw [hq, element, List.append_assoc, List.singleton_append]⟩
        rw [BlockMap.at?_insert_of_ne inner hkey]

theorem changesOnly_of_apply (hu : d.apply t = .ok u) : d.ChangesOnly t u := by
  unfold ChangesOnly
  have hstep := apply_eq_ok_iff.1 hu
  obtain ⟨threshold, target, mutation⟩ := d
  cases hstep with
  | addBlock _ h => exact changesBlockOnly_of_replacedAt h
  | replaceBlock _ h => exact changesBlockOnly_of_replacedAt h
  | addAttribute | removeAttribute | replaceConstraints =>
      exact changesAttributeOnly_of_apply rfl hu

/-- A delta that applies changes its element and nothing else, and it fails exactly when it is
refused: without its target, with what it adds already there, or without what it removes or
replaces. -/
theorem apply_changes_only (d : Delta) (t : SchemaTree) :
    (∀ u, d.apply t = .ok u → d.ChangesOnly t u) ∧
      ∀ e, d.apply t = .error e ↔ d.Refused t e :=
  ⟨fun _ => changesOnly_of_apply, fun _ => apply_eq_error_iff⟩

/-- The block `terraform` with the nested block `backend`, which has the attribute `path`. -/
def localBackend : SchemaTree :=
  SchemaTree.empty.withBlock "terraform" (BlockSchema.bare.withBlock "backend"
    (BlockSchema.bare.withAttribute "path" (.required [.literal .string])))

def backendPathOpened : Delta :=
  ⟨.release 1 0 0, ["terraform", "backend"], .replaceConstraints "path" [.any]⟩

/-- Other constraints for an attribute of a nested block change that attribute only, and are refused
where the nested block is missing. -/
theorem apply_changes_only_backendPath :
    (∃ u, backendPathOpened.apply localBackend = .ok u ∧
      backendPathOpened.ChangesOnly localBackend u) ∧
      backendPathOpened.Refused .empty (.missingBlock "backend" "terraform") := by
  obtain ⟨u, hu⟩ : ∃ u, backendPathOpened.apply localBackend = .ok u := ⟨_, rfl⟩
  exact ⟨⟨u, hu, (apply_changes_only _ _).1 u hu⟩, ((apply_changes_only _ _).2 _).1 rfl⟩

end Delta

end ConfigSchema
