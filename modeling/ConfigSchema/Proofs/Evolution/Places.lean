import ConfigSchema.Proofs.Evolution.Edits

/-!
A delta as an edit at one place. The place is a path of block names: an attribute mutation edits the
block that it targets, and a block mutation the block of its name in there, which may be absent.
Main statement: `Delta.apply_eq_ok_iff_editedAt`, a delta applies exactly when its mutation has such
an edit, by recursion on the place.
-/

namespace ConfigSchema

namespace Entries

variable {α : Type} (m : SortedMap String α)

/-- The map with the value under a key, or without the key. -/
def put (k : String) : Option α → SortedMap String α
  | some v => m.insert k v
  | none => m.erase k

theorem get?_put (k j : String) (v : Option α) :
    (m.put k v).get? j = if k = j then v else m.get? j := by
  cases v with
  | none => exact get?_erase m k j
  | some v => exact get?_insert m k j v

theorem get?_put_of_ne {k j : String} (h : k ≠ j) (v : Option α) :
    (m.put k v).get? j = m.get? j := by
  rw [get?_put, if_neg h]

theorem put_comm {k j : String} (h : k ≠ j) (v w : Option α) :
    (m.put k v).put j w = (m.put j w).put k v := by
  refine ext_get? fun i => ?_
  simp only [get?_put]
  by_cases hk : k = i
  · subst hk
    simp [h.symm]
  · simp [hk]

theorem insert_comm {k j : String} (h : k ≠ j) (v w : α) :
    (m.insert k v).insert j w = (m.insert j w).insert k v :=
  m.put_comm h (some v) (some w)

theorem insert_insert (k : String) (v w : α) : (m.insert k v).insert k w = m.insert k w := by
  refine ext_get? fun i => ?_
  simp only [get?_insert]
  split <;> rfl

end Entries

namespace Mutation

/-- The mutation changes a block and not an attribute. -/
def isOnBlock : Mutation → Bool
  | addBlock .. | replaceBlock .. => true
  | addAttribute .. | removeAttribute _ | replaceConstraints .. => false

/-- What an attribute mutation makes of the attribute of its name, which may be absent. -/
inductive Sets : Mutation → Option AttributeSchema → Option AttributeSchema → Prop
  | addAttribute (name : String) (a : AttributeSchema) : Sets (.addAttribute name a) none (some a)
  | removeAttribute (name : String) (a : AttributeSchema) :
    Sets (.removeAttribute name) (some a) none
  | replaceConstraints (name : String) (set : ConstraintSet) (a : AttributeSchema) :
    Sets (.replaceConstraints name set) (some a) (some { a with constraints := set })

/-- What a mutation makes of the block at its place, which may be absent. -/
inductive Edits : Mutation → Option BlockSchema → BlockSchema → Prop
  | setAttribute {μ : Mutation} {b : BlockSchema} {a : Option AttributeSchema}
    (h : μ.Sets (b.attributes.get? μ.name) a) :
    Edits μ (some b) { b with attributes := b.attributes.put μ.name a }
  | addBlock (name : String) (new : BlockSchema) : Edits (.addBlock name new) none new
  | replaceBlock (name : String) (new old : BlockSchema) :
    Edits (.replaceBlock name new) (some old) new

theorem Sets.isOnBlock {μ : Mutation} {a a' : Option AttributeSchema} (h : μ.Sets a a') :
    μ.isOnBlock = false := by
  cases h <;> rfl

theorem edits_iff_sets {μ : Mutation} (hμ : μ.isOnBlock = false) {o : Option BlockSchema}
    {b' : BlockSchema} : μ.Edits o b' ↔ ∃ b a, o = some b ∧ μ.Sets (b.attributes.get? μ.name) a ∧
      b' = { b with attributes := b.attributes.put μ.name a } := by
  constructor
  · intro h
    cases h with
    | setAttribute h => exact ⟨_, _, rfl, h, rfl⟩
    | addBlock name new => cases hμ
    | replaceBlock name new old => cases hμ
  · rintro ⟨b, a, rfl, h, rfl⟩
    exact .setAttribute h

end Mutation

namespace BlockMap

/-- The second map is the first one with another block of a name, which is to be related to the one
that was there. -/
def ChangedAt (R : Option BlockSchema → BlockSchema → Prop) (name : String) (m m' : BlockMap) :
    Prop :=
  ∃ b', R (m.get? name) b' ∧ m' = m.insert name b'

end BlockMap

/-- What a mutation makes of a block when its place is below it. -/
def Mutation.EditsAt (μ : Mutation) : List String → Option BlockSchema → BlockSchema → Prop
  | [] => μ.Edits
  | name :: path => fun o b' => ∃ b blocks, o = some b ∧
      BlockMap.ChangedAt (EditsAt μ path) name b.blocks blocks ∧ b' = { b with blocks := blocks }

namespace BlockMap

/-- The second map is what a mutation makes of the first one at a place. -/
def EditedAt (μ : Mutation) : List String → BlockMap → BlockMap → Prop
  | [] => fun _ _ => False
  | name :: path => ChangedAt (μ.EditsAt path) name

section EditedAt

variable {μ : Mutation} {m m' : BlockMap}

theorem editsAt_of_ne_nil {path : List String} (h : path ≠ []) {o : Option BlockSchema}
    {b' : BlockSchema} : μ.EditsAt path o b' ↔
      ∃ b blocks, o = some b ∧ EditedAt μ path b.blocks blocks ∧
        b' = { b with blocks := blocks } := by
  cases path with
  | nil => exact absurd rfl h
  | cons name path => rfl

theorem editedAt_concat_iff {parents : List String} {name : String} :
    EditedAt μ (parents ++ [name]) m m' ↔ ∃ inner b', μ.Edits (inner.get? name) b' ∧
      ReplacedAt inner (inner.insert name b') parents m m' := by
  constructor
  · intro h
    induction parents generalizing m m' with
    | nil =>
        obtain ⟨b', hb', rfl⟩ := h
        exact ⟨m, b', hb', .here⟩
    | cons next parents ih =>
        obtain ⟨c, hc, rfl⟩ := h
        obtain ⟨b, blocks, hb, hblocks, rfl⟩ := (editsAt_of_ne_nil (by simp)).1 hc
        obtain ⟨inner, b', hb', hat⟩ := ih hblocks
        exact ⟨inner, b', hb', .within hb hat⟩
  · rintro ⟨inner, b', hb', h⟩
    induction h with
    | here => exact ⟨b', hb', rfl⟩
    | within hb _ ih => exact ⟨_, (editsAt_of_ne_nil (by simp)).2 ⟨_, _, hb, ih, rfl⟩, rfl⟩

/-- The edits of an attribute mutation are the changes of the attributes of one block. -/
theorem editedAt_iff_attributesReplacedAt (hμ : μ.isOnBlock = false) {target : List String} :
    EditedAt μ target m m' ↔ ∃ b a, μ.Sets (b.attributes.get? μ.name) a ∧
      AttributesReplacedAt b (b.attributes.put μ.name a) target m m' := by
  constructor
  · intro h
    obtain rfl | ⟨parents, name, rfl⟩ := target.eq_nil_or_concat
    · exact h.elim
    · rw [List.concat_eq_append] at h ⊢
      obtain ⟨inner, _, hedits, hat⟩ := editedAt_concat_iff.1 h
      obtain ⟨b, a, hb, ha, rfl⟩ := (Mutation.edits_iff_sets hμ).1 hedits
      exact ⟨b, a, ha, parents, name, inner, rfl, hb, hat⟩
  · rintro ⟨b, a, ha, parents, name, inner, rfl, hb, hat⟩
    exact editedAt_concat_iff.2
      ⟨inner, _, (Mutation.edits_iff_sets hμ).2 ⟨b, a, hb, ha, rfl⟩, hat⟩

end EditedAt

end BlockMap

open BlockMap (EditedAt ReplacedAt AttributesReplacedAt)

namespace Mutation

variable {μ : Mutation} {target : List String} {m m' : BlockMap}

/-- The path of the block that a mutation edits when it applies to the target. -/
def place (μ : Mutation) (target : List String) : List String :=
  if μ.isOnBlock then target ++ [μ.name] else target

theorem step_iff_sets (hμ : μ.isOnBlock = false) : μ.Step target m m' ↔
    ∃ b a, μ.Sets (b.attributes.get? μ.name) a ∧
      AttributesReplacedAt b (b.attributes.put μ.name a) target m m' := by
  constructor
  · intro h
    cases h with
    | @addAttribute name a b hnew h => exact ⟨b, some a, hnew ▸ .addAttribute name a, h⟩
    | @removeAttribute name a b ha h => exact ⟨b, none, ha ▸ .removeAttribute name a, h⟩
    | @replaceConstraints name set a b ha h =>
        exact ⟨b, some { a with constraints := set }, ha ▸ .replaceConstraints name set a, h⟩
    | addBlock => cases hμ
    | replaceBlock => cases hμ
  · rintro ⟨b, a', hsets, h⟩
    generalize hget : b.attributes.get? μ.name = o at hsets
    cases hsets with
    | addAttribute => exact .addAttribute hget h
    | removeAttribute => exact .removeAttribute hget h
    | replaceConstraints => exact .replaceConstraints hget h

theorem step_iff_edits (hμ : μ.isOnBlock = true) : μ.Step target m m' ↔
    ∃ inner b', μ.Edits (inner.get? μ.name) b' ∧
      ReplacedAt inner (inner.insert μ.name b') target m m' := by
  constructor
  · intro h
    cases h with
    | @addBlock name new inner hnew h => exact ⟨inner, new, hnew ▸ .addBlock name new, h⟩
    | @replaceBlock name new old inner hold h =>
        exact ⟨inner, new, hold ▸ .replaceBlock name new old, h⟩
    | addAttribute => cases hμ
    | removeAttribute => cases hμ
    | replaceConstraints => cases hμ
  · rintro ⟨inner, b', hedits, h⟩
    generalize hget : inner.get? μ.name = o at hedits
    cases hedits with
    | setAttribute hsets => simp [hsets.isOnBlock] at hμ
    | addBlock => exact .addBlock hget h
    | replaceBlock => exact .replaceBlock hget h

theorem step_iff_editedAt : μ.Step target m m' ↔ EditedAt μ (μ.place target) m m' := by
  cases hμ : μ.isOnBlock with
  | false =>
      rw [step_iff_sets hμ, place, if_neg (by simp [hμ]),
        BlockMap.editedAt_iff_attributesReplacedAt hμ]
  | true => rw [step_iff_edits hμ, place, if_pos hμ, BlockMap.editedAt_concat_iff]

end Mutation

namespace Delta

/-- The path of the block that the delta edits. -/
def place (d : Delta) : List String := d.mutation.place d.target

/-- A delta applies exactly when its mutation has an edit at its place. -/
theorem apply_eq_ok_iff_editedAt {d : Delta} {t u : SchemaTree} :
    d.apply t = .ok u ↔ EditedAt d.mutation d.place t.blocks u.blocks := by
  rw [apply_eq_ok_iff, Mutation.step_iff_editedAt, place]

end Delta

end ConfigSchema
