import ConfigSchema.Proofs.Evolution.Extension

/-!
A test for deltas that only relax the schema, to be computed along a run. The test is sound but not
complete: it compares constraint sets by their alternatives, and looks into objects only as far as
their own attributes.
-/

namespace ConfigSchema

namespace Constraint

/-- The alternatives are equal, or both are objects with nothing but the listed attributes, where
the second one may list more optional attributes. -/
def isWidenedTo (v w : Constraint) : Bool :=
  v == w ||
    match v, w with
    | object fs false, object gs false =>
      (fs.toList.all fun p => (gs.get? p.1).any fun b => p.2.constraints == b.constraints) &&
        gs.toList.all fun p => p.2.isOptional || (fs.get? p.1).any fun a => !a.isOptional
    | _, _ => false

theorem within_of_isWidenedTo {v w : Constraint} (h : v.isWidenedTo w = true) : v.Within w := by
  unfold isWidenedTo at h
  rw [Bool.or_eq_true] at h
  obtain h | h := h
  · rw [beq_iff_eq.1 h]
    exact fun _ hc => hc
  split at h
  next fs gs =>
    rw [Bool.and_eq_true, List.all_eq_true, List.all_eq_true] at h
    obtain ⟨hkept, hadded⟩ := h
    have hlisted : ∀ name a, fs.get? name = some a →
        ∃ b, gs.get? name = some b ∧ a.constraints = b.constraints := by
      intro name a ha
      simpa [Option.any_eq_true] using hkept (name, a) (Entries.get?_eq_some_iff.1 ha)
    -- what the second object lists anew is optional, and the first one admitted nothing else
    refine object_within (fun name b hb hrequired => ?_) (fun name a b ha hb => ?_)
      (fun name a ha hnone => ?_) (fun hopen => by cases hopen)
    · have hb' := hadded (name, b) (Entries.get?_eq_some_iff.1 hb)
      simpa [hrequired, Option.any_eq_true] using hb'
    · obtain ⟨b', hb', hsame⟩ := hlisted name a ha
      cases hb.symm.trans hb'
      rw [hsame]
      exact .refl _
    · obtain ⟨b, hb, -⟩ := hlisted name a ha
      cases hb.symm.trans hnone
  next => cases h

end Constraint

namespace ConstraintSet

def isWidenedTo (vs ws : ConstraintSet) : Bool := vs.all fun v => ws.any fun w => v.isWidenedTo w

theorem within_of_isWidenedTo {vs ws : ConstraintSet} (h : vs.isWidenedTo ws = true) :
    vs.Within ws := by
  refine within_of_alternatives fun v hv => ?_
  obtain ⟨w, hw, hvw⟩ := List.any_eq_true.1 (List.all_eq_true.1 h v hv)
  exact ⟨w, hw, Constraint.within_of_isWidenedTo hvw⟩

end ConstraintSet

namespace AttributeSchema

def isRelaxedTo (old new : AttributeSchema) : Bool :=
  old.constraints.isWidenedTo new.constraints && (!new.isRequired || old.isRequired)

theorem relaxedTo_of_isRelaxedTo {old new : AttributeSchema} (h : old.isRelaxedTo new = true) :
    old.RelaxedTo new := by
  rw [isRelaxedTo, Bool.and_eq_true] at h
  refine ⟨ConstraintSet.within_of_isWidenedTo h.1, fun hnew => ?_⟩
  simpa [hnew] using h.2

end AttributeSchema

namespace BlockSchema

/-- The test of a block by itself; its nested blocks are left aside. -/
def isRelaxedTo (old new : BlockSchema) : Bool :=
  old.labels.length == new.labels.length &&
    (new.maxItems.all fun n => old.maxItems.any fun m => m ≤ n) &&
    (old.attributes.toList.all fun p => (new.attributes.get? p.1).any p.2.isRelaxedTo) &&
    (new.attributes.toList.all fun p => old.attributes.contains p.1 ||
      !p.2.isRequired && old.openRule.all fun r => r.constraints.isWidenedTo p.2.constraints) &&
    old.openRule.all fun r =>
      new.openRule.any fun r' => r.constraints.isWidenedTo r'.constraints

theorem relaxedTo_of_isRelaxedTo {old new : BlockSchema} (h : old.isRelaxedTo new = true) :
    old.RelaxedTo new := by
  simp only [isRelaxedTo, Bool.and_eq_true, beq_iff_eq, List.all_eq_true, Prod.forall,
    ← Entries.get?_eq_some_iff, Option.any_eq_true, Option.all_eq_true, decide_eq_true_eq] at h
  obtain ⟨⟨⟨⟨hlabels, hlimit⟩, hkept⟩, hadded⟩, hopen⟩ := h
  refine ⟨hlabels, hlimit, fun name a ha => ?_, fun name a' ha' hnone => ?_, fun r hr => ?_⟩
  · obtain ⟨a', ha', haa'⟩ := hkept name a ha
    exact ⟨a', ha', AttributeSchema.relaxedTo_of_isRelaxedTo haa'⟩
  · have hnew : ¬old.attributes.contains name = true := by simp [Entries.contains, hnone]
    obtain ⟨hoptional, hrule⟩ : a'.isRequired = false ∧ ∀ r, old.openRule = some r →
        r.constraints.isWidenedTo a'.constraints = true := by
      simpa [hnew, Option.all_eq_true] using hadded name a' ha'
    exact ⟨hoptional, fun r hr => ConstraintSet.within_of_isWidenedTo (hrule r hr)⟩
  · obtain ⟨r', hr', hrr'⟩ := hopen r hr
    exact ⟨r', hr', ConstraintSet.within_of_isWidenedTo hrr'⟩

end BlockSchema

namespace Delta

/-- A replaced block must not have nested blocks. -/
def isRelaxing (d : Delta) (t : SchemaTree) : Bool :=
  match d.mutation with
  | .addAttribute _ a => !a.isRequired && (t.blockAt? d.target).all fun b =>
    b.openRule.all fun r => r.constraints.isWidenedTo a.constraints
  | .removeAttribute _ => false
  | .replaceConstraints name set => (t.blockAt? d.target).all fun b =>
    (b.attributes.get? name).all fun a => a.constraints.isWidenedTo set
  | .addBlock _ _ => true
  | .replaceBlock name new => (t.blockAt? (d.target ++ [name])).all fun old =>
    old.isRelaxedTo new && old.blocks.isEmpty

theorem relaxes_of_isRelaxing {d : Delta} {t : SchemaTree} (h : d.isRelaxing t = true) :
    d.Relaxes t := by
  obtain ⟨threshold, target, mutation⟩ := d
  cases mutation with
  | addAttribute name a =>
      simp only [isRelaxing, Bool.and_eq_true, Bool.not_eq_true', Option.all_eq_true] at h
      obtain ⟨hoptional, hopen⟩ := h
      exact ⟨hoptional, fun b r hb hr => ConstraintSet.within_of_isWidenedTo (hopen b hb r hr)⟩
  | removeAttribute name => cases h
  | replaceConstraints name set =>
      simp only [isRelaxing, Option.all_eq_true] at h
      exact fun b a hb ha => ConstraintSet.within_of_isWidenedTo (h b hb a ha)
  | addBlock name new => trivial
  | replaceBlock name new =>
      simp only [isRelaxing, Option.all_eq_true, Bool.and_eq_true] at h
      intro old hold
      obtain ⟨hrelaxed, hempty⟩ := h old hold
      refine ⟨BlockSchema.relaxedTo_of_isRelaxedTo hrelaxed, ?_⟩
      rw [BlockMap.ExtendedBy.iff_get?]
      intro key b hb
      cases hblocks : old.blocks with
      | nil =>
          rw [hblocks] at hb
          cases hb
      | cons _ _ _ _ =>
          rw [hblocks] at hempty
          cases hempty

/-- The test at every delta of a run, which has to be possible to its end. -/
def areRelaxing : List Delta → SchemaTree → Bool
  | [], _ => true
  | d :: ds, t =>
    d.isRelaxing t &&
      match d.apply t with
      | .ok u => areRelaxing ds u
      | .error _ => false

theorem relaxAlong_of_areRelaxing {ds : List Delta} {t : SchemaTree}
    (h : areRelaxing ds t = true) : RelaxAlong ds t := by
  induction ds generalizing t with
  | nil => trivial
  | cons d ds ih =>
      rw [areRelaxing, Bool.and_eq_true] at h
      obtain ⟨hd, hds⟩ := h
      refine ⟨relaxes_of_isRelaxing hd, fun u hu => ih ?_⟩
      rwa [hu] at hds

end Delta

end ConfigSchema
