import ConfigSchema.Proofs.Diff.Growth
import ConfigSchema.Proofs.Evolution.InForce

/-!
Evolutions in which schemas grow. A delta that neither removes an attribute nor replaces a block
lets the schema grow, and so does a run of such deltas, whether they nest or not. Main statement:
between two versions without other deltas in between, nothing gets lost, and the comparison reports
additions and changed constraints only.
-/

namespace ConfigSchema

/-- The mutation puts something else in the place of what was there, or nothing. -/
def Mutation.takesAway : Mutation → Bool
  | .removeAttribute _ => true
  | .replaceBlock _ _ => true
  | _ => false

namespace Delta

open BlockMap (EachIn)

theorem grownTo_of_apply {d : Delta} {t u : SchemaTree} (hd : d.mutation.takesAway = false)
    (hu : d.apply t = .ok u) : t.GrownTo u := by
  obtain ⟨threshold, target, mutation⟩ := d
  have hstep := apply_eq_ok_iff.1 hu
  cases hstep with
  | @addAttribute name new b hnew hat =>
      refine EachIn.attributesReplacedAt .blocks hat (.of_kept _ fun key a ha => ?_)
      have hne : name ≠ key := by
        rintro rfl
        cases hnew.symm.trans ha
      exact ⟨a.constraints, by rw [Entries.get?_insert_of_ne _ hne, ha]⟩
  | @replaceConstraints name set old b hold hat =>
      refine EachIn.attributesReplacedAt .blocks hat (.of_kept _ fun key a ha => ?_)
      rw [Entries.get?_insert]
      split
      next e =>
        subst e
        cases hold.symm.trans ha
        exact ⟨set, rfl⟩
      next => exact ⟨a.constraints, ha⟩
  | addBlock hnew hat =>
      exact EachIn.replacedAt .blocks hat (.insert_new (BlockMap.rel_self .blocks) hnew _)
  | removeAttribute => cases hd
  | replaceBlock => cases hd

theorem Leads.grownTo {ds : List Delta} {t u : SchemaTree} (h : Leads ds t u)
    (hds : ∀ d ∈ ds, d.mutation.takesAway = false) : t.GrownTo u := by
  induction h with
  | nil t => exact .refl t
  | cons hu _ ih =>
      obtain ⟨hd, hds⟩ := List.forall_mem_cons.1 hds
      exact (grownTo_of_apply hd hu).trans (ih hds)

end Delta

namespace Evolution

/-- Without deltas that take something away, the later of two schemas has all that the earlier one
has, and the comparison reports additions and changed constraints only. -/
theorem grows_between {e : Evolution} {v w : Version} (hvw : v.core ≤ w.core) {t u : SchemaTree}
    (ht : e.build v = .ok t) (hu : e.build w = .ok u)
    (hkeep : ∀ d ∈ e.deltas, v.core < d.threshold.core → d.threshold.core ≤ w.core →
      d.mutation.takesAway = false) :
    (∀ c ∈ t.changes u, c.IsGrowth) ∧
      ∀ path b, t.blockAt? path = some b → ∃ b', u.blockAt? path = some b' ∧ b.GrownTo b' := by
  have hgrown : t.GrownTo u := (leads_between hvw ht hu).grownTo fun d hd => by
    obtain ⟨hmem, hbetween⟩ := List.mem_filter.1 hd
    obtain ⟨hafter, hreached⟩ := of_decide_eq_true hbetween
    exact hkeep d hmem hafter hreached
  exact ⟨fun _ => hgrown.isGrowth_of_mem_changes, hgrown⟩

/-- The schema with one block `terraform`. -/
def settings (required : ConstraintSet) (nested : BlockMap) : SchemaTree :=
  SchemaTree.empty.withBlock "terraform"
    { BlockSchema.bare.withAttribute "required_version" (.optional required) with blocks := nested }

/-- The nested block `backend` with one attribute. -/
def backend (lock : ConstraintSet) : BlockMap :=
  Entries.nil.insert "backend" (BlockSchema.bare.withAttribute "lock" (.required lock))

/-- A nested block comes, an attribute in it, and other constraints for both attributes; with the
next major version all of it goes. -/
def settingsHistory : Evolution where
  baseVersion := .release 1 0 0
  base := settings [.literal .string] .nil
  deltas := [⟨.release 1 1 0, ["terraform"], .addBlock "backend" .bare⟩,
    ⟨.release 1 2 0, ["terraform", "backend"], .addAttribute "lock" (.required [.literal .bool])⟩,
    ⟨.release 1 3 0, ["terraform", "backend"], .replaceConstraints "lock" [.literal .string]⟩,
    ⟨.release 1 3 0, ["terraform"], .replaceConstraints "required_version" [.any]⟩,
    ⟨.release 2 0 0, [], .replaceBlock "terraform" .bare⟩]
  sorted := by simp [Version.core, Version.release]; decide

theorem grows_between_settingsHistory :
    ((Version.release 1 0 0).core ≤ (Version.release 1 3 5).core ∧
      settingsHistory.build (.release 1 0 0) = .ok (settings [.literal .string] .nil) ∧
      settingsHistory.build (.release 1 3 5) = .ok (settings [.any] (backend [.literal .string])) ∧
      ∀ d ∈ settingsHistory.deltas, (Version.release 1 0 0).core < d.threshold.core →
        d.threshold.core ≤ (Version.release 1 3 5).core → d.mutation.takesAway = false) ∧
      (∀ c ∈ (settings [.literal .string] .nil).changes
        (settings [.any] (backend [.literal .string])), c.IsGrowth) ∧
      ∀ path b, (settings [.literal .string] .nil).blockAt? path = some b →
        ∃ b', (settings [.any] (backend [.literal .string])).blockAt? path = some b' ∧
          b.GrownTo b' := by
  have hle : (Version.release 1 0 0).core ≤ (Version.release 1 3 5).core := by decide
  have hearlier : settingsHistory.build (.release 1 0 0) =
      .ok (settings [.literal .string] .nil) := rfl
  have hlater : settingsHistory.build (.release 1 3 5) =
      .ok (settings [.any] (backend [.literal .string])) := rfl
  have hkeep : ∀ d ∈ settingsHistory.deltas, (Version.release 1 0 0).core < d.threshold.core →
      d.threshold.core ≤ (Version.release 1 3 5).core → d.mutation.takesAway = false := by
    decide
  exact ⟨⟨hle, hearlier, hlater, hkeep⟩, grows_between hle hearlier hlater hkeep⟩

end Evolution

end ConfigSchema
