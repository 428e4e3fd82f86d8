import ConfigSchema.Proofs.Diff.Breaking
import ConfigSchema.Proofs.Schema.Relaxation
import Mathlib.Data.List.Chain

/-!
Upgrades in several steps. A schema is compatible with an older one when every block of the older
one is still there under its path and keeps what it must. Main statement: compatibility is reflexive
and transitive, so a chain of compatible steps is compatible from any of its schemas to any later
one.
-/

namespace ConfigSchema

namespace AttributeSchema.KeptBy

theorem refl (a : AttributeSchema) : a.KeptBy a := ⟨fun _ hv => hv, id⟩

theorem trans {a b c : AttributeSchema} (h : a.KeptBy b) (h' : b.KeptBy c) : a.KeptBy c :=
  ⟨fun v hv => h'.alternatives v (h.alternatives v hv), fun hc => h.required (h'.required hc)⟩

end AttributeSchema.KeptBy

namespace BlockSchema

open SchemaChange

namespace KeptBy

variable {a b c : BlockSchema}

theorem refl (b : BlockSchema) : b.KeptBy b where
  labels := rfl
  limit := isTighter_eq_false_iff.2 (LimitRelaxedTo.refl b)
  reference := .inl rfl
  kept _ a ha := ⟨a, ha, .refl a⟩
  added _ _ ha hn := by
    rw [ha] at hn
    cases hn
  openRule r hr := ⟨r, hr, .refl r⟩

theorem trans (h : a.KeptBy b) (h' : b.KeptBy c) : a.KeptBy c where
  labels := h.labels.trans h'.labels
  limit := isTighter_eq_false_iff.2 (LimitRelaxedTo.trans
    (isTighter_eq_false_iff.1 h.limit) (isTighter_eq_false_iff.1 h'.limit))
  reference := by
    -- a reference may only come where there was none, so a lost one was never there
    rcases h.reference with hab | hnone
    · rw [hab]
      exact h'.reference
    · exact .inr hnone
  kept name x hx := by
    obtain ⟨y, hy, hxy⟩ := h.kept name x hx
    obtain ⟨z, hz, hyz⟩ := h'.kept name y hy
    exact ⟨z, hz, hxy.trans hyz⟩
  added name z hz hnone := by
    cases hy : b.attributes.get? name with
    | none => exact h'.added name z hz hy
    | some y =>
        -- the attribute was added as an optional one, and it is kept as such
        have hoptional : y.isRequired = false := h.added name y hy hnone
        obtain ⟨z', hz', hyz⟩ := h'.kept name y hy
        cases hz.symm.trans hz'
        cases hrequired : z.isRequired with
        | false => rfl
        | true => exact absurd (hyz.required hrequired) (by simp [hoptional])
  openRule r hr := by
    obtain ⟨r', hr', hrr'⟩ := h.openRule r hr
    obtain ⟨r'', hr'', hr'r''⟩ := h'.openRule r' hr'
    exact ⟨r'', hr'', hrr'.trans hr'r''⟩

end KeptBy

/-- The path in a report plays no part, and the blocks at all depths are kept. -/
theorem harmless_changes_iff_eachIn (old new : BlockSchema) (path : String) :
    Harmless (old.changes new path) ↔
      old.KeptBy new ∧ BlockMap.EachIn KeptBy old.blocks new.blocks := by
  induction old using induct generalizing new path with
  | block old ih =>
      rw [harmless_changes, BlockMap.eachIn_iff_get?]
      refine and_congr_right fun _ => ?_
      refine forall_congr' fun name => forall_congr' fun b => forall_congr' fun hb => ?_
      exact exists_congr fun b' => and_congr_right fun _ => ih name b hb b' _

end BlockSchema

namespace SchemaTree

/-- A report that is not strict finds nothing against the second schema in place of the first. -/
def UpgradesTo (old new : SchemaTree) : Prop :=
  (DiffReport.compare old new false).isCompatible = true

instance (old new : SchemaTree) : Decidable (old.UpgradesTo new) :=
  inferInstanceAs (Decidable (_ = true))

theorem upgradesTo_iff {old new : SchemaTree} :
    old.UpgradesTo new ↔ BlockMap.EachIn BlockSchema.KeptBy old.blocks new.blocks := by
  rw [UpgradesTo, DiffReport.isCompatible_compare, BlockMap.eachIn_iff_get?]
  refine forall_congr' fun name => forall_congr' fun b => imp_congr_right fun _ => ?_
  exact exists_congr fun b' => and_congr_right fun _ =>
    BlockSchema.harmless_changes_iff_eachIn b b' _

namespace UpgradesTo

theorem refl (t : SchemaTree) : t.UpgradesTo t :=
  upgradesTo_iff.2 (.refl .refl t.blocks)

theorem trans {t u w : SchemaTree} (h : t.UpgradesTo u) (h' : u.UpgradesTo w) :
    t.UpgradesTo w := by
  rw [upgradesTo_iff] at *
  exact .trans (fun _ _ _ => .trans) h h'

instance : Trans UpgradesTo UpgradesTo UpgradesTo := ⟨trans⟩

end UpgradesTo

/-- Every schema upgrades to itself, and what two compatible steps lead to is compatible. So along a
list in which each schema upgrades to the next, it upgrades to all the later ones. -/
theorem upgradesTo_preorder :
    (∀ t : SchemaTree, t.UpgradesTo t) ∧
      (∀ t u w : SchemaTree, t.UpgradesTo u → u.UpgradesTo w → t.UpgradesTo w) ∧
      ∀ ts : List SchemaTree, ts.IsChain UpgradesTo → ts.Pairwise UpgradesTo :=
  ⟨.refl, fun _ _ _ => .trans, fun _ h => h.pairwise⟩

/-- Resources under a limit, with an attribute `for_each` or without it. -/
def resources (limit : Option UInt64) (forEach : Option ConstraintSet) : SchemaTree :=
  let b := BlockSchema.bare.withLabel (.plain "type" (.plainText "Resource Type"))
  let limited := { b with maxItems := limit }
  empty.withBlock "resource" (match forEach with
    | none => limited
    | some set => limited.withAttribute "for_each" (.optional set))

/-- The limit is lifted as the attribute comes in, and the attribute is widened after that. -/
theorem upgradesTo_forEach :
    (resources (some 1) none).UpgradesTo (resources none (some [.literal .string])) ∧
      (resources none (some [.literal .string])).UpgradesTo
        (resources none (some [.literal .number, .literal .string])) ∧
      (resources (some 1) none).UpgradesTo
        (resources none (some [.literal .number, .literal .string])) := by
  have hadded : (resources (some 1) none).UpgradesTo
      (resources none (some [.literal .string])) := by decide
  have hwidened : (resources none (some [.literal .string])).UpgradesTo
      (resources none (some [.literal .number, .literal .string])) := by decide
  obtain ⟨-, htrans, -⟩ := upgradesTo_preorder
  exact ⟨hadded, hwidened, htrans _ _ _ hadded hwidened⟩

end SchemaTree

end ConfigSchema
