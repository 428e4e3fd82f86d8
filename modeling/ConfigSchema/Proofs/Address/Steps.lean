import ConfigSchema.Address.Basic
import ConfigSchema.Proofs.Except

/-!
Templates that give a path. Each step contributes one segment, or none if it is an optional one whose
attribute is absent. So the path is empty just when all steps are of this kind.
-/

namespace ConfigSchema

namespace Address

variable {needed : Option UInt64} {b : BlockInstance} {name : Option String}

/-- The path consists of what the steps contribute. -/
theorem resolve_eq_ok_iff {address : Address} {p : RefPath} :
    address.resolve b name = .ok p ↔ ∃ contributions,
      List.Forall₂ (fun step c => segment? address.requiredLabels b name step = .ok c) address
        contributions ∧ p = ⟨contributions.filterMap id⟩ := by
  simp only [resolve, map_eq_ok_iff, mapM_eq_ok_iff, @eq_comm _ p]

/-- What a step contributes does not depend on the number of labels that the template needs. -/
theorem segment?_eq_ok_of {needed' : Option UInt64} {step : AddressStep} {c : Option String}
    (h : segment? needed b name step = .ok c) : segment? needed' b name step = .ok c := by
  cases step with
  | label i =>
      simp only [segment?] at h ⊢
      split at h
      next => exact h
      next => split at h <;> cases h
  | fixed | attributeValue | attributeName => exact h

/-- Some steps give a path just when each of them contributes, whatever the template needs. -/
theorem exists_mapM_segment?_iff {steps : List AddressStep} :
    (∃ contributions, steps.mapM (segment? needed b name) = .ok contributions) ↔
      ∃ p, resolve steps b name = .ok p := by
  simp only [mapM_eq_ok_iff, resolve_eq_ok_iff]
  constructor
  · rintro ⟨contributions, h⟩
    exact ⟨_, contributions, h.imp fun _ _ => segment?_eq_ok_of, rfl⟩
  · rintro ⟨_, contributions, h, rfl⟩
    exact ⟨contributions, h.imp fun _ _ => segment?_eq_ok_of⟩

theorem segment?_eq_none_iff {step : AddressStep} : segment? needed b name step = .ok none ↔
    ∃ a, step = .attributeValue a true ∧ b.attribute? a = none := by
  constructor
  · intro h
    unfold segment? at h
    split at h
    next => cases h
    next =>
      split at h
      next => split at h <;> cases h
      next => split at h <;> cases h
    next a isOptional =>
      split at h
      next => split at h <;> cases h
      next hnone =>
        cases isOptional with
        | true => exact ⟨a, rfl, hnone⟩
        | false => cases h
    next => split at h <;> cases h
  · rintro ⟨a, rfl, hnone⟩
    simp [segment?, hnone]

/-- The path is empty just when every step is optional and its attribute is absent. -/
theorem resolve_eq_ok_nil_iff {address : Address} : address.resolve b name = .ok ⟨[]⟩ ↔
    ∀ step ∈ address, ∃ a, step = .attributeValue a true ∧ b.attribute? a = none := by
  simp only [← @segment?_eq_none_iff address.requiredLabels b name]
  rw [resolve_eq_ok_iff]
  constructor
  · rintro ⟨contributions, hsteps, hnil⟩
    have hnone : contributions = address.map fun _ => none := by
      rw [List.map_const', hsteps.length_eq, List.eq_replicate_iff]
      exact ⟨rfl, List.filterMap_eq_nil_iff.1 (RefPath.mk.inj hnil).symm⟩
    rwa [hnone, List.forall₂_map_right_iff, List.forall₂_same] at hsteps
  · intro hnone
    refine ⟨address.map fun _ => none, ?_, by simp⟩
    rwa [List.forall₂_map_right_iff, List.forall₂_same]

end Address

end ConfigSchema
