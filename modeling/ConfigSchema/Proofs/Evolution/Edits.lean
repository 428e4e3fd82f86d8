import ConfigSchema.Evolution.Delta
import ConfigSchema.Proofs.Except
import ConfigSchema.Proofs.Schema.Paths
import ConfigSchema.SortedMap.Lemmas

/-!
What one delta does. It replaces the blocks below one path, or the attributes of one block, and has
one way to do so for each kind of mutation. Main statement: `Delta.apply_eq_ok_iff`, a delta applies
exactly when there is such a step, and the step gives the tree after it.
-/

namespace ConfigSchema

namespace Entries

variable {α β ε : Type} {m : SortedMap String α} {k : String} {e : ε} {x y : β}

theorem ite_contains_error_eq_ok_iff :
    (if m.contains k then .error e else .ok x : Except ε β) = .ok y ↔ m.get? k = none ∧ x = y := by
  rw [← contains_eq_false_iff]
  cases m.contains k <;> simp

theorem ite_contains_ok_eq_ok_iff :
    (if m.contains k then .ok x else .error e : Except ε β) = .ok y ↔
      (∃ v, m.get? k = some v) ∧ x = y := by
  rw [← contains_iff]
  cases m.contains k <;> simp

end Entries

namespace BlockMap

/-- The second map is the first one with other blocks below a path. -/
inductive ReplacedAt (inner inner' : BlockMap) : List String → BlockMap → BlockMap → Prop
  | here : ReplacedAt inner inner' [] inner inner'
  | within {name : String} {path : List String} {m : BlockMap} {b : BlockSchema}
    {blocks : BlockMap} (hb : m.get? name = some b)
    (h : ReplacedAt inner inner' path b.blocks blocks) :
    ReplacedAt inner inner' (name :: path) m (m.insert name { b with blocks := blocks })

/-- The second map is the first one with other attributes of the block at a path. -/
def AttributesReplacedAt (b : BlockSchema) (as : SortedMap String AttributeSchema)
    (path : List String) (m m' : BlockMap) : Prop :=
  ∃ parents name inner, path = parents ++ [name] ∧ inner.get? name = some b ∧
    ReplacedAt inner (inner.insert name { b with attributes := as }) parents m m'

theorem ReplacedAt.blocksAt? {inner inner' m m' : BlockMap} {path : List String}
    (h : ReplacedAt inner inner' path m m') : m.blocksAt? path = some inner := by
  induction h with
  | here => rfl
  | within hb _ ih => rw [BlockMap.blocksAt?, hb, Option.bind_some, ih]

theorem ReplacedAt.at?_concat {inner inner' m m' : BlockMap} {path : List String} {name : String}
    {b : BlockSchema} (h : ReplacedAt inner inner' path m m') (hb : inner.get? name = some b) :
    m.at? (path ++ [name]) = some b := by
  rw [BlockMap.at?_concat, h.blocksAt?, Option.bind_some, hb]

theorem AttributesReplacedAt.at? {b : BlockSchema} {as : SortedMap String AttributeSchema}
    {path : List String} {m m' : BlockMap} (h : AttributesReplacedAt b as path m m') :
    m.at? path = some b := by
  obtain ⟨parents, name, inner, rfl, hb, h⟩ := h
  exact h.at?_concat hb

section EachIn

variable {R : BlockSchema → BlockSchema → Prop} {m m' : BlockMap} {path : List String}

/-- Nested blocks play no part in the relation. -/
theorem rel_self (hR : ∀ b blocks, R b { b with blocks := blocks }) (b : BlockSchema) : R b b := by
  cases b
  exact hR _ _

/-- A relation that nested blocks play no part in holds between all blocks of two maps if it does
below the path where they differ. -/
theorem EachIn.replacedAt (hR : ∀ b blocks, R b { b with blocks := blocks })
    {inner inner' : BlockMap} (h : ReplacedAt inner inner' path m m')
    (hinner : EachIn R inner inner') : EachIn R m m' := by
  induction h with
  | here => exact hinner
  | within hb _ ih => exact .insert (rel_self hR) hb (hR _ _) ih

theorem EachIn.attributesReplacedAt (hR : ∀ b blocks, R b { b with blocks := blocks })
    {b : BlockSchema} {as : SortedMap String AttributeSchema}
    (h : AttributesReplacedAt b as path m m') (hb : R b { b with attributes := as }) :
    EachIn R m m' := by
  obtain ⟨parents, name, inner, -, hinner, h⟩ := h
  exact .replacedAt hR h (.insert (rel_self hR) hinner hb (.refl (rel_self hR) _))

end EachIn

theorem updateAt_eq_ok_iff {missing : SchemaError} {change : BlockMap → Except SchemaError BlockMap}
    {path : List String} {m m' : BlockMap} : updateAt missing change path m = .ok m' ↔
      ∃ inner inner', change inner = .ok inner' ∧ ReplacedAt inner inner' path m m' := by
  constructor
  · intro h
    induction path generalizing m m' with
    | nil => exact ⟨m, m', h, .here⟩
    | cons name path ih =>
        rw [updateAt] at h
        cases hb : m.get? name with
        | none =>
            rw [hb] at h
            cases h
        | some b =>
            simp only [hb, map_eq_ok_iff] at h
            obtain ⟨blocks, hblocks, rfl⟩ := h
            obtain ⟨inner, inner', hchange, hat⟩ := ih hblocks
            exact ⟨inner, inner', hchange, .within hb hat⟩
  · rintro ⟨inner, inner', hchange, h⟩
    induction h with
    | here => exact hchange
    | within hb _ ih =>
        rw [updateAt, hb]
        exact map_eq_ok_iff.2 ⟨_, ih, rfl⟩

theorem updateAttributes_eq_ok_iff {missing : SchemaError} {name : String}
    {change : SortedMap String AttributeSchema →
      Except SchemaError (SortedMap String AttributeSchema)} {m m' : BlockMap} :
    updateAttributes missing name change m = .ok m' ↔
      ∃ b as, m.get? name = some b ∧ change b.attributes = .ok as ∧
        m' = m.insert name { b with attributes := as } := by
  rw [updateAttributes]
  cases m.get? name with
  | none => simp
  | some b => simp [map_eq_ok_iff, @eq_comm _ m']

end BlockMap

open BlockMap (ReplacedAt AttributesReplacedAt)

/-- What a mutation makes of the blocks at the top level when it applies to the target. -/
inductive Mutation.Step (target : List String) (m m' : BlockMap) : Mutation → Prop
  | addAttribute {name : String} {a : AttributeSchema} {b : BlockSchema}
    (hnew : b.attributes.get? name = none)
    (h : AttributesReplacedAt b (b.attributes.insert name a) target m m') :
    Step target m m' (.addAttribute name a)
  | removeAttribute {name : String} {a : AttributeSchema} {b : BlockSchema}
    (ha : b.attributes.get? name = some a)
    (h : AttributesReplacedAt b (b.attributes.erase name) target m m') :
    Step target m m' (.removeAttribute name)
  | replaceConstraints {name : String} {set : ConstraintSet} {a : AttributeSchema} {b : BlockSchema}
    (ha : b.attributes.get? name = some a)
    (h : AttributesReplacedAt b (b.attributes.insert name { a with constraints := set }) target
      m m') :
    Step target m m' (.replaceConstraints name set)
  | addBlock {name : String} {new : BlockSchema} {inner : BlockMap}
    (hnew : inner.get? name = none) (h : ReplacedAt inner (inner.insert name new) target m m') :
    Step target m m' (.addBlock name new)
  | replaceBlock {name : String} {new old : BlockSchema} {inner : BlockMap}
    (hold : inner.get? name = some old) (h : ReplacedAt inner (inner.insert name new) target m m') :
    Step target m m' (.replaceBlock name new)

namespace Delta

theorem onAttributes_eq_ok_iff {d : Delta} {change : SortedMap String AttributeSchema →
      Except SchemaError (SortedMap String AttributeSchema)} {m m' : BlockMap} :
    d.onAttributes change m = .ok m' ↔
      ∃ b as, change b.attributes = .ok as ∧ AttributesReplacedAt b as d.target m m' := by
  unfold onAttributes
  constructor
  · intro h
    split at h
    next => cases h
    next name hlast =>
      obtain ⟨parents, hpath⟩ := List.getLast?_eq_some_iff.1 hlast
      rw [hpath, List.dropLast_concat] at h
      obtain ⟨inner, inner', hinner, hat⟩ := BlockMap.updateAt_eq_ok_iff.1 h
      obtain ⟨b, as, hb, has, rfl⟩ := BlockMap.updateAttributes_eq_ok_iff.1 hinner
      exact ⟨b, as, has, parents, name, inner, hpath, hb, hat⟩
  · rintro ⟨b, as, has, parents, name, inner, hpath, hb, hat⟩
    simp only [hpath, List.getLast?_concat, List.dropLast_concat]
    exact BlockMap.updateAt_eq_ok_iff.2
      ⟨inner, _, BlockMap.updateAttributes_eq_ok_iff.2 ⟨b, as, hb, has, rfl⟩, hat⟩

theorem applyTo_eq_ok_iff {d : Delta} {m m' : BlockMap} :
    d.applyTo m = .ok m' ↔ d.mutation.Step d.target m m' := by
  obtain ⟨threshold, target, mutation⟩ := d
  cases mutation with
  | addAttribute name a =>
      simp only [applyTo, onAttributes_eq_ok_iff, Entries.ite_contains_error_eq_ok_iff]
      constructor
      · rintro ⟨b, _, ⟨hnew, rfl⟩, h⟩
        exact .addAttribute hnew h
      · rintro ⟨⟩
        next b hnew h => exact ⟨b, _, ⟨hnew, rfl⟩, h⟩
  | removeAttribute name =>
      simp only [applyTo, onAttributes_eq_ok_iff, Entries.ite_contains_ok_eq_ok_iff]
      constructor
      · rintro ⟨b, _, ⟨⟨a, ha⟩, rfl⟩, h⟩
        exact .removeAttribute ha h
      · rintro ⟨⟩
        next a b ha h => exact ⟨b, _, ⟨⟨a, ha⟩, rfl⟩, h⟩
  | replaceConstraints name set =>
      rw [applyTo, onAttributes_eq_ok_iff]
      constructor
      · rintro ⟨b, as, has, h⟩
        split at has
        next a ha =>
          cases has
          exact .replaceConstraints ha h
        next => cases has
      · rintro ⟨⟩
        next a b ha h => exact ⟨b, _, by simp [ha], h⟩
  | addBlock name new =>
      simp only [applyTo, BlockMap.updateAt_eq_ok_iff, Entries.ite_contains_error_eq_ok_iff]
      constructor
      · rintro ⟨inner, _, ⟨hnew, rfl⟩, h⟩
        exact .addBlock hnew h
      · rintro ⟨⟩
        next inner hnew h => exact ⟨inner, _, ⟨hnew, rfl⟩, h⟩
  | replaceBlock name new =>
      simp only [applyTo, BlockMap.updateAt_eq_ok_iff, Entries.ite_contains_ok_eq_ok_iff]
      constructor
      · rintro ⟨inner, _, ⟨⟨old, hold⟩, rfl⟩, h⟩
        exact .replaceBlock hold h
      · rintro ⟨⟩
        next old inner hold h => exact ⟨inner, _, ⟨⟨old, hold⟩, rfl⟩, h⟩

/-- A delta applies exactly when its mutation has a step from the tree. -/
theorem apply_eq_ok_iff {d : Delta} {t u : SchemaTree} :
    d.apply t = .ok u ↔ d.mutation.Step d.target t.blocks u.blocks := by
  rw [← applyTo_eq_ok_iff, apply, map_eq_ok_iff]
  constructor
  · rintro ⟨m, hm, rfl⟩
    exact hm
  · exact fun h => ⟨u.blocks, h, rfl⟩

end Delta

end ConfigSchema
