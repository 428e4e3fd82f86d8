import ConfigSchema.Proofs.Evolution.Edits
import ConfigSchema.Proofs.Evolution.InForce
import ConfigSchema.Proofs.Schema.Relaxation

/-!
Evolutions that only relax the schema. Whether a delta does so depends on the tree that it is
applied to; from the trees along a run it follows that the schema of every version is extended by
those of later versions.
-/

namespace ConfigSchema

namespace BlockMap.ExtendedBy

/-- Blocks that extend those below a path extend the map. -/
theorem replacedAt {inner inner' m m' : BlockMap} {path : List String}
    (h : ReplacedAt inner inner' path m m') (hinner : inner.ExtendedBy inner') :
    m.ExtendedBy m' :=
  EachIn.replacedAt (fun _ _ => .of_eq rfl rfl rfl rfl) h hinner

theorem attributesReplacedAt {b : BlockSchema} {as : SortedMap String AttributeSchema}
    {path : List String} {m m' : BlockMap} (h : AttributesReplacedAt b as path m m')
    (hb : b.RelaxedTo { b with attributes := as }) : m.ExtendedBy m' :=
  EachIn.attributesReplacedAt (fun _ _ => .of_eq rfl rfl rfl rfl) h hb

end BlockMap.ExtendedBy

/-- A block with another schema for one attribute: a weaker one if it had one before, and otherwise
an optional one that accepts what the open rule accepted. -/
theorem BlockSchema.RelaxedTo.withAttribute {b : BlockSchema} {name : String} {a : AttributeSchema}
    (hkept : ∀ x, b.attributes.get? name = some x → x.RelaxedTo a)
    (hadded : b.attributes.get? name = none → a.isRequired = false ∧
      ∀ r, b.openRule = some r → r.constraints.Within a.constraints) :
    b.RelaxedTo (b.withAttribute name a) where
  labels := rfl
  limit := .refl b
  kept key x hx := by
    rw [BlockSchema.withAttribute, Entries.get?_insert]
    split
    next e =>
      subst e
      exact ⟨a, rfl, hkept x hx⟩
    next => exact ⟨x, hx, .refl x⟩
  added key y hy hx := by
    rw [BlockSchema.withAttribute, Entries.get?_insert] at hy
    split at hy
    next e =>
      cases hy
      subst e
      exact hadded hx
    next =>
      rw [hx] at hy
      cases hy
  openRule r hr := ⟨r, hr, .refl _⟩

namespace Delta

/-- The delta only relaxes the tree: it adds blocks, or optional attributes that accept what the
open rule accepted, and what it replaces becomes weaker. -/
def Relaxes (d : Delta) (t : SchemaTree) : Prop :=
  match d.mutation with
  | .addAttribute _ a => a.isRequired = false ∧ ∀ b r, t.blockAt? d.target = some b →
    b.openRule = some r → r.constraints.Within a.constraints
  | .removeAttribute _ => False
  | .replaceConstraints name set => ∀ b a, t.blockAt? d.target = some b →
    b.attributes.get? name = some a → a.constraints.Within set
  | .addBlock _ _ => True
  | .replaceBlock name new => ∀ old, t.blockAt? (d.target ++ [name]) = some old →
    old.RelaxedTo new ∧ BlockMap.ExtendedBy old.blocks new.blocks

/-- A delta that only relaxes the tree extends it. -/
theorem Relaxes.extends {d : Delta} {t u : SchemaTree} (h : d.Relaxes t)
    (hu : d.apply t = .ok u) : t.ExtendedBy u := by
  obtain ⟨threshold, target, mutation⟩ := d
  have hstep := apply_eq_ok_iff.1 hu
  cases hstep with
  | addAttribute hnew hat =>
      obtain ⟨hoptional, hopen⟩ := h
      -- the name was not listed, so only the open rule has judged its values
      refine .attributesReplacedAt hat (.withAttribute (fun x hx => ?_) fun _ =>
        ⟨hoptional, fun r hr => hopen _ r hat.at? hr⟩)
      cases hnew.symm.trans hx
  | removeAttribute => exact h.elim
  | replaceConstraints ha hat =>
      refine .attributesReplacedAt hat (.withAttribute (fun x hx => ?_) fun hx => ?_)
      · cases ha.symm.trans hx
        exact ⟨h _ _ hat.at? ha, id⟩
      · cases ha.symm.trans hx
  | addBlock hnew hat => exact .replacedAt hat (.insert_new hnew _)
  | @replaceBlock name new old inner hold hat =>
      obtain ⟨hrelaxed, hnested⟩ := h old (hat.at?_concat hold)
      exact .replacedAt hat (.insert hold hrelaxed hnested)

/-- Each delta only relaxes the tree that the deltas before it lead to. -/
def RelaxAlong : List Delta → SchemaTree → Prop
  | [], _ => True
  | d :: ds, t => d.Relaxes t ∧ ∀ u, d.apply t = .ok u → RelaxAlong ds u

theorem RelaxAlong.extends {ds : List Delta} {t w : SchemaTree} (h : RelaxAlong ds t)
    (hw : Leads ds t w) : t.ExtendedBy w := by
  induction hw with
  | nil t => exact .refl t
  | cons hu _ ih => exact (h.1.extends hu).trans (ih (h.2 _ hu))

theorem RelaxAlong.right_of_append {ds es : List Delta} {t u : SchemaTree}
    (h : RelaxAlong (ds ++ es) t) (hu : Leads ds t u) : RelaxAlong es u := by
  induction hu with
  | nil => exact h
  | cons hu _ ih => exact ih (h.2 _ hu)

theorem RelaxAlong.left_of_append {ds es : List Delta} {t : SchemaTree}
    (h : RelaxAlong (ds ++ es) t) : RelaxAlong ds t := by
  induction ds generalizing t with
  | nil => trivial
  | cons d ds ih => exact ⟨h.1, fun u hu => ih (h.2 u hu)⟩

end Delta

namespace Evolution

open Delta (Leads RelaxAlong)

/-- Where all deltas only relax the schema, later versions extend it. -/
theorem extendedBy_of_le {e : Evolution} (h : RelaxAlong e.deltas e.base) {v w : Version}
    (hvw : v.core ≤ w.core) {t u : SchemaTree} (ht : e.build v = .ok t) (hu : e.build w = .ok u) :
    t.ExtendedBy u := by
  obtain ⟨htree, -⟩ := build_eq_ok_iff.1 ht
  have hall : RelaxAlong (e.deltasAt w.core) e.base := by
    rw [← List.takeWhile_append_dropWhile (p := fun d => decide (d.threshold.core ≤ w.core))
      (l := e.deltas)] at h
    exact h.left_of_append
  rw [e.deltasAt_append hvw] at hall
  exact (hall.right_of_append htree).extends (leads_between hvw ht hu)

end Evolution

end ConfigSchema
