import ConfigSchema.Proofs.Address.Steps

/-!
Paths that can be told from their dotted text. Labels and values contribute such segments only; what
a template says itself, and the name of the addressed attribute, is taken as it is. Main statement:
`Address.readable_iff`, the path of an address is readable just when those are.
-/

namespace ConfigSchema

namespace RefPath

/-- Every segment can be told apart in the dotted text. -/
def Readable (p : RefPath) : Prop := ∀ s ∈ p.segments, isSegment s = true

instance (p : RefPath) : Decidable p.Readable := by
  unfold Readable
  infer_instance

theorem isSegment_iff {s : String} : isSegment s = true ↔ s ≠ "" ∧ '.' ∉ s.toList := by
  simp [isSegment]

theorem readable_parse (text : String) : (parse text).Readable := by
  intro s hs
  obtain ⟨w, hw, rfl⟩ := List.mem_map.1 hs
  rw [List.mem_filter] at hw
  have hpoint : '.' ∉ w := Text.not_mem_of_mem_splitAt hw.1
  have hempty : w ≠ [] := by simpa using hw.2
  rw [isSegment_iff, String.toList_ofList]
  exact ⟨by simpa using hempty, hpoint⟩

theorem parse_text {p : RefPath} (hp : p.Readable) : parse p.text = p := by
  obtain ⟨segments⟩ := p
  cases segments with
  | nil => rfl
  | cons s ss =>
      have hwords : ∀ w ∈ (s :: ss).map String.toList, w ≠ [] ∧ '.' ∉ w := by
        intro w hw
        obtain ⟨v, hv, rfl⟩ := List.mem_map.1 hw
        have hsegment := isSegment_iff.1 (hp v hv)
        exact ⟨by simpa using hsegment.1, hsegment.2⟩
      have hsplit : Text.splitAt '.' (Text.join '.' ((s :: ss).map String.toList)) =
          (s :: ss).map String.toList :=
        Text.splitAt_join (by simp) fun w hw => (hwords w hw).2
      have hkept : ((s :: ss).map String.toList).filter (fun w => !w.isEmpty) =
          (s :: ss).map String.toList :=
        List.filter_eq_self.2 fun w hw => by simpa using (hwords w hw).1
      rw [parse, text, String.toList_ofList, hsplit, hkept, List.map_map]
      simp [Function.comp_def]

/-- Exactly the readable paths read back from their text. -/
theorem parse_text_eq_iff {p : RefPath} : parse p.text = p ↔ p.Readable := by
  refine ⟨fun h => ?_, parse_text⟩
  rw [← h]
  exact readable_parse p.text

theorem text_injective {p q : RefPath} (hp : p.Readable) (hq : q.Readable)
    (h : p.text = q.text) : p = q := by
  rw [← parse_text hp, h, parse_text hq]

end RefPath

open RefPath (isSegment)

theorem AttributeValue.isSegment_of_segment? {v : AttributeValue} {s : String}
    (h : v.segment? = some s) : isSegment s = true := by
  unfold segment? at h
  split at h
  · split at h
    next hs =>
      cases h
      exact hs
    next => cases h
  · dsimp only at h
    split at h
    next hs =>
      cases h
      exact hs
    next => cases h
  next b =>
    cases h
    cases b <;> decide
  · cases h

/-- What the step contributes of itself, or as the name of the addressed attribute, is a segment.
Labels and values are looked at when they are read. -/
def AddressStep.IsSpelled (name : Option String) : AddressStep → Prop
  | fixed segment => isSegment segment = true
  | attributeName => ∀ n, name = some n → isSegment n = true
  | label _ => True
  | attributeValue .. => True

namespace Address

/-- Every step of the template is spelled in segments. -/
def IsSpelled (address : Address) (name : Option String) : Prop :=
  ∀ step ∈ address, step.IsSpelled name

/-- What one step contributes is a segment just when the step is spelled so. -/
theorem isSegment_iff_of_segment? {needed : Option UInt64} {b : BlockInstance} {name : Option String}
    {step : AddressStep} {contribution : Option String}
    (h : segment? needed b name step = .ok contribution) :
    (∀ s, contribution = some s → isSegment s = true) ↔ step.IsSpelled name := by
  cases step with
  | fixed segment =>
      cases h
      simp [AddressStep.IsSpelled]
  | label index =>
      simp only [AddressStep.IsSpelled, iff_true]
      rintro s rfl
      simp only [segment?] at h
      split at h
      next l hl =>
        split at h
        next hs =>
          cases h
          exact hs
        next => cases h
      next => split at h <;> cases h
  | attributeValue a isOptional =>
      simp only [AddressStep.IsSpelled, iff_true]
      rintro s rfl
      rw [segment?] at h
      split at h
      next v hv =>
        split at h
        next s' hs =>
          cases h
          exact v.isSegment_of_segment? hs
        next => cases h
      next => split at h <;> cases h
  | attributeName =>
      cases name with
      | none => cases h
      | some n =>
          cases h
          simp [AddressStep.IsSpelled]

theorem readable_filterMap_iff {needed : Option UInt64} {b : BlockInstance} {name : Option String}
    {steps : List AddressStep} {contributions : List (Option String)}
    (h : List.Forall₂ (fun step c => segment? needed b name step = .ok c) steps contributions) :
    (∀ s ∈ contributions.filterMap id, isSegment s = true) ↔
      ∀ step ∈ steps, step.IsSpelled name := by
  induction h with
  | nil => simp
  | @cons step contribution _ _ hstep _ ih =>
      rw [List.forall_mem_cons, ← ih, ← isSegment_iff_of_segment? hstep]
      cases contribution <;> simp

/-- The path that an address gives is readable just when the template is spelled in segments. -/
theorem readable_iff {address : Address} {b : BlockInstance} {name : Option String} {p : RefPath}
    (h : address.resolve b name = .ok p) : p.Readable ↔ address.IsSpelled name := by
  obtain ⟨contributions, hsteps, rfl⟩ := resolve_eq_ok_iff.1 h
  exact readable_filterMap_iff hsteps

end Address

end ConfigSchema
