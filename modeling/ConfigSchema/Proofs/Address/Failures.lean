import ConfigSchema.Proofs.Address.Steps

/-!
Why a template gives no path. The reason is that of the first step that fails, and says what that
step does not find in the block. A step whose label is missing asks for the number of labels that the
whole template needs, and that number is known just when the template does not read the last label of
all.
-/

namespace ConfigSchema

/-- A step contributes nothing to the path of a block, or of its attribute `name`, for a reason. -/
inductive AddressStep.Fails (needed : Option UInt64) (b : BlockInstance) (name : Option String) :
    AddressStep → Unresolved → Prop
  | tooFewLabels {index n : UInt64} : b.labels.length ≤ index.toNat → needed = some n →
    Fails needed b name (.label index) (.tooFewLabels n (UInt64.ofNat b.labels.length))
  | overflow {index : UInt64} : b.labels.length ≤ index.toNat → needed = none →
    Fails needed b name (.label index) .overflow
  | invalidLabel {index : UInt64} {label : String} : b.labels[index.toNat]? = some label →
    RefPath.isSegment label = false → Fails needed b name (.label index) (.invalidLabel index)
  | attributeAbsent {a : String} : b.attribute? a = none →
    Fails needed b name (.attributeValue a false) (.attributeAbsent a)
  | attributeNotLiteral {a : String} {isOptional : Bool} {v : AttributeValue} :
    b.attribute? a = some v → v.segment? = none →
    Fails needed b name (.attributeValue a isOptional) (.attributeNotLiteral a)
  | noAttributeName : name = none → Fails needed b name .attributeName .noAttributeName

namespace Address

variable {needed : Option UInt64} {b : BlockInstance} {name : Option String} {reason : Unresolved}
  {address : Address}

theorem segment?_eq_error_iff {step : AddressStep} :
    segment? needed b name step = .error reason ↔ step.Fails needed b name reason := by
  constructor
  · intro h
    unfold segment? at h
    split at h
    next => cases h
    next index =>
      split at h
      next label hlabel =>
        split at h
        next => cases h
        next hsegment =>
          cases h
          exact .invalidLabel hlabel (by simpa using hsegment)
      next hnone =>
        split at h
        next =>
          cases h
          exact .tooFewLabels (List.getElem?_eq_none_iff.1 hnone) rfl
        next =>
          cases h
          exact .overflow (List.getElem?_eq_none_iff.1 hnone) rfl
    next a isOptional =>
      split at h
      next v hv =>
        split at h
        next => cases h
        next hsegment =>
          cases h
          exact .attributeNotLiteral hv hsegment
      next hnone =>
        cases isOptional <;> cases h
        exact .attributeAbsent hnone
    next =>
      split at h <;> cases h
      exact .noAttributeName rfl
  · intro h
    cases h with
    | tooFewLabels h hneeded => simp [segment?, List.getElem?_eq_none_iff.2 h, hneeded]
    | overflow h hneeded => simp [segment?, List.getElem?_eq_none_iff.2 h, hneeded]
    | invalidLabel hlabel hsegment => simp [segment?, hlabel, hsegment]
    | attributeAbsent h => simp [segment?, h]
    | attributeNotLiteral hv hsegment => simp [segment?, hv, hsegment]
    | noAttributeName h =>
        subst h
        rfl

/-- A template has no path just when one of its steps fails behind others that give one. -/
theorem resolve_eq_error_iff : address.resolve b name = .error reason ↔
    ∃ before step after, address = before ++ step :: after ∧
      (∃ p, resolve before b name = .ok p) ∧
      step.Fails address.requiredLabels b name reason := by
  rw [resolve, map_eq_error_iff, mapM_eq_error_iff]
  simp only [exists_mapM_segment?_iff, segment?_eq_error_iff]

theorem exists_fails_of_resolve (h : address.resolve b name = .error reason) :
    ∃ step ∈ address, step.Fails address.requiredLabels b name reason := by
  obtain ⟨before, step, after, rfl, -, hfails⟩ := resolve_eq_error_iff.1 h
  exact ⟨step, by simp, hfails⟩

/-- A step that fails for the lack of a label reads one that the block does not have. -/
theorem exists_label_of_tooFewLabels {needed found : UInt64}
    (h : address.resolve b name = .error (.tooFewLabels needed found)) :
    address.requiredLabels = some needed ∧ found.toNat = b.labels.length ∧
      ∃ i, .label i ∈ address ∧ b.labels.length ≤ i.toNat := by
  obtain ⟨step, hstep, hfails⟩ := exists_fails_of_resolve h
  cases hfails with
  | @tooFewLabels i _ hi hneeded =>
      refine ⟨hneeded, ?_, i, hstep, hi⟩
      exact UInt64.toNat_ofNat_of_lt' (Nat.lt_of_le_of_lt hi i.toNat_lt)

theorem toNat_max_le_iff {x y : UInt64} {n : Nat} :
    (max x y).toNat ≤ n ↔ x.toNat ≤ n ∧ y.toNat ≤ n := by
  have hmax : max x y = if x ≤ y then y else x := rfl
  rw [hmax]
  split
  next h =>
    have hle := UInt64.le_iff_toNat_le.1 h
    omega
  next h =>
    have hlt := UInt64.lt_iff_toNat_lt.1 (UInt64.not_le.1 h)
    omega

theorem successor?_eq_none_iff {i : UInt64} : successor? i = none ↔ i = lastIndex := by
  simp [successor?]

theorem toNat_of_successor? {i n : UInt64} (h : successor? i = some n) :
    n.toNat = i.toNat + 1 := by
  unfold successor? at h
  split at h
  next => cases h
  next hlast =>
    cases h
    have hsize : i.toNat < 18446744073709551616 := i.toNat_lt
    have hlast : i.toNat ≠ 18446744073709551615 := fun e => hlast (UInt64.toNat_inj.1 e)
    rw [UInt64.toNat_add]
    exact Nat.mod_eq_of_lt (by change i.toNat + 1 < _; omega)

/-- There is a number of needed labels unless the last label of all is read. -/
theorem requiredLabels_eq_none_iff : address.requiredLabels = none ↔ .label lastIndex ∈ address := by
  induction address with
  | nil => simp [requiredLabels]
  | cons step steps ih =>
      cases step with
      | label i =>
          have hstep : AddressStep.label lastIndex = .label i ↔ successor? i = none := by
            rw [successor?_eq_none_iff, AddressStep.label.injEq, eq_comm]
          rw [List.mem_cons, hstep, ← ih, requiredLabels]
          cases successor? i <;> cases requiredLabels steps <;> simp
      | fixed | attributeValue | attributeName => simpa [requiredLabels] using ih

/-- The number of needed labels is the least bound for the indices that are read. -/
theorem requiredLabels_le_iff {needed : UInt64} (h : address.requiredLabels = some needed) {n : Nat} :
    needed.toNat ≤ n ↔ ∀ i, .label i ∈ address → i.toNat < n := by
  induction address generalizing needed with
  | nil =>
      cases h
      simp
  | cons step steps ih =>
      cases step with
      | label i =>
          obtain ⟨k, hk, h⟩ := Option.bind_eq_some_iff.1 h
          obtain ⟨m, hm, ⟨⟩⟩ := Option.bind_eq_some_iff.1 h
          rw [toNat_max_le_iff, ih hm, toNat_of_successor? hk, Nat.add_one_le_iff]
          simp [or_imp, forall_and]
      | fixed | attributeValue | attributeName => simpa using ih h

end Address

end ConfigSchema
