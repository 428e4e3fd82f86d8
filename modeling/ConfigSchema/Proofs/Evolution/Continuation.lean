import ConfigSchema.Proofs.Evolution.InForce

/-!
How the schema of a later version continues that of an earlier one. The deltas between the two
versions are applied to what the deltas of the earlier one have made of the base, before it was
looked at for defects. So a delta that fails for one version fails for all later ones, but a defect of
the tree may be mended on the way.
-/

namespace ConfigSchema

namespace Evolution

open Delta

theorem applyAll_append (ds es : List Delta) (t : SchemaTree) :
    applyAll (ds ++ es) t = applyAll ds t >>= applyAll es :=
  List.foldlM_append

/-- The later schema, with the deltas of the earlier version applied first. -/
theorem build_eq_bind (e : Evolution) {v w : Version} (h : v.core ≤ w.core) :
    e.build w = applyAll (e.deltas.filter fun d => d.threshold.core ≤ v.core) e.base >>= fun t =>
      applyAll (e.deltas.filter fun d =>
        v.core < d.threshold.core ∧ d.threshold.core ≤ w.core) t >>= validated := by
  rw [build, e.deltasAt_append h, applyAll_append, deltasAt_eq_filter]
  exact bind_assoc _ _ _

/-- An attribute for which no value is admitted until the next version, and then an attribute that is
removed where there is none. -/
def mendedLate : Evolution where
  baseVersion := .release 0 12 0
  base := SchemaTree.empty.withBlock "variable"
    (BlockSchema.bare.withAttribute "type" (.optional []))
  deltas := [⟨.release 0 13 0, ["variable"], .replaceConstraints "type" [.any]⟩,
    ⟨.release 1 0 0, ["variable"], .removeAttribute "default"⟩,
    ⟨.release 1 1 0, [], .addBlock "check" .bare⟩]
  sorted := by simp [Version.core, Version.release]; decide

/-- If the deltas up to one version make a tree of the base, the schema of a later version is what
those between the two make of that tree, if it has no defect then. If one of them fails, every later
version has the same error. A defect of the tree may be gone with the later version. -/
theorem build_resumes :
    (∀ (e : Evolution) (v w : Version), v.core ≤ w.core →
      (∀ t, applyAll (e.deltas.filter fun d => d.threshold.core ≤ v.core) e.base = .ok t →
        e.build w = applyAll (e.deltas.filter fun d =>
          v.core < d.threshold.core ∧ d.threshold.core ≤ w.core) t >>= validated) ∧
      ∀ err, applyAll (e.deltas.filter fun d => d.threshold.core ≤ v.core) e.base = .error err →
        e.build w = .error err) ∧
      ∃ (e : Evolution) (v w : Version) (t u : SchemaTree) (err : SchemaError), v.core ≤ w.core ∧
        applyAll (e.deltas.filter fun d => d.threshold.core ≤ v.core) e.base = .ok t ∧
        t.validate = .error err ∧ e.build v = .error err ∧ e.build w = .ok u := by
  refine ⟨fun e v w h => ⟨fun t ht => ?_, fun err herr => ?_⟩, ?_⟩
  · rw [e.build_eq_bind h, ht]
    rfl
  · rw [e.build_eq_bind h, herr]
    rfl
  · exact ⟨mendedLate, .release 0 12 0, .release 0 13 0, _, _, _, by decide, rfl, rfl, rfl, rfl⟩

/-- The schema of the next version, and the error that stays. -/
theorem build_mendedLate :
    ((Version.release 0 12 0).core ≤ (Version.release 0 13 0).core ∧
      applyAll (mendedLate.deltas.filter fun d => d.threshold.core ≤ (Version.release 0 12 0).core)
        mendedLate.base = .ok mendedLate.base ∧
      mendedLate.build (.release 0 13 0) = applyAll (mendedLate.deltas.filter fun d =>
        (Version.release 0 12 0).core < d.threshold.core ∧
          d.threshold.core ≤ (Version.release 0 13 0).core) mendedLate.base >>= validated) ∧
      (Version.release 1 0 0).core ≤ (Version.release 1 1 0).core ∧
      applyAll (mendedLate.deltas.filter fun d => d.threshold.core ≤ (Version.release 1 0 0).core)
        mendedLate.base = .error (.missingAttribute "default" "variable") ∧
      mendedLate.build (.release 1 1 0) = .error (.missingAttribute "default" "variable") := by
  have hnext : (Version.release 0 12 0).core ≤ (Version.release 0 13 0).core := by decide
  have hlater : (Version.release 1 0 0).core ≤ (Version.release 1 1 0).core := by decide
  have hkept : applyAll (mendedLate.deltas.filter fun d =>
      d.threshold.core ≤ (Version.release 0 12 0).core) mendedLate.base = .ok mendedLate.base := rfl
  have hfailed : applyAll (mendedLate.deltas.filter fun d =>
      d.threshold.core ≤ (Version.release 1 0 0).core) mendedLate.base =
        .error (.missingAttribute "default" "variable") := rfl
  exact ⟨⟨hnext, hkept, (build_resumes.1 mendedLate _ _ hnext).1 _ hkept⟩, hlater, hfailed,
    (build_resumes.1 mendedLate _ _ hlater).2 _ hfailed⟩

end Evolution

end ConfigSchema
