import ConfigSchema.Proofs.Constraint.Meaning

/-!
Widening of constraints at any depth. Main statement: a set that is widened accepts all that it
accepted before, and the order and number of the alternatives never matter.
-/

namespace ConfigSchema

mutual

/-- The second constraint is the first one with some part of it made wider. -/
inductive Constraint.WidensTo : Constraint → Constraint → Prop
  | same (v : Constraint) : Constraint.WidensTo v v
  | any (v : Constraint) : Constraint.WidensTo v .any
  /-- The type is no longer asked for. -/
  | untyped (scope : Scope) (ofType : Option ValueType) :
    Constraint.WidensTo (.traversal scope ofType) (.traversal scope none)
  | uniform {vs ws : ConstraintSet} :
    ConstraintSet.WidensTo vs ws → Constraint.WidensTo (.uniform vs) (.uniform ws)
  | positional {vss wss : List ConstraintSet} : vss.length = wss.length →
    (∀ p ∈ vss.zip wss, ConstraintSet.WidensTo p.1 p.2) →
    Constraint.WidensTo (.positional vss) (.positional wss)
  | anyLength {vss : List ConstraintSet} {ws : ConstraintSet} :
    (∀ vs ∈ vss, ConstraintSet.WidensTo vs ws) →
    Constraint.WidensTo (.positional vss) (.uniform ws)
  | map {ks ls vs ws : ConstraintSet} : ConstraintSet.WidensTo ks ls →
    ConstraintSet.WidensTo vs ws → Constraint.WidensTo (.map ks vs) (.map ls ws)
  /-- No other attribute is required, the listed ones are widened or left to an open object, and an
  open object stays open without new attributes. -/
  | object {fs gs : Entries String (ObjectAttribute (List Constraint)) none}
    {isOpen stillOpen : Bool} :
    (∀ name b, gs.get? name = some b → b.isOptional = false →
      ∃ a, fs.get? name = some a ∧ a.isOptional = false) →
    (∀ name a b, fs.get? name = some a → gs.get? name = some b →
      ConstraintSet.WidensTo a.constraints b.constraints) →
    (∀ name a, fs.get? name = some a → gs.get? name = none → stillOpen = true) →
    (isOpen = true → stillOpen = true ∧
      ∀ name b, gs.get? name = some b → ∃ a, fs.get? name = some a) →
    Constraint.WidensTo (.object fs isOpen) (.object gs stillOpen)

/-- Every alternative of the first set has a wider one in the second set. -/
inductive ConstraintSet.WidensTo : ConstraintSet → ConstraintSet → Prop
  | nil (ws : ConstraintSet) : ConstraintSet.WidensTo [] ws
  | cons {v w : Constraint} {vs ws : ConstraintSet} : w ∈ ws → Constraint.WidensTo v w →
    ConstraintSet.WidensTo vs ws → ConstraintSet.WidensTo (v :: vs) ws

end

mutual

/-- The second set has the alternatives of the first one in another order or number, in the set
itself or in the sets nested in it. -/
inductive ConstraintSet.Rearranged : ConstraintSet → ConstraintSet → Prop
  | perm {vs ws : ConstraintSet} : vs.Perm ws → ConstraintSet.Rearranged vs ws
  | duplicate {v : Constraint} {vs : ConstraintSet} : v ∈ vs →
    ConstraintSet.Rearranged vs (v :: vs)
  | inside {v w : Constraint} (vs ws : ConstraintSet) : Constraint.Rearranged v w →
    ConstraintSet.Rearranged (vs ++ v :: ws) (vs ++ w :: ws)
  | symm {vs ws : ConstraintSet} : ConstraintSet.Rearranged vs ws →
    ConstraintSet.Rearranged ws vs
  | trans {us vs ws : ConstraintSet} : ConstraintSet.Rearranged us vs →
    ConstraintSet.Rearranged vs ws → ConstraintSet.Rearranged us ws

/-- One of the sets nested in the constraint is rearranged. -/
inductive Constraint.Rearranged : Constraint → Constraint → Prop
  | uniform {vs ws : ConstraintSet} : ConstraintSet.Rearranged vs ws →
    Constraint.Rearranged (.uniform vs) (.uniform ws)
  | positional {vs ws : ConstraintSet} (uss wss : List ConstraintSet) :
    ConstraintSet.Rearranged vs ws →
    Constraint.Rearranged (.positional (uss ++ vs :: wss)) (.positional (uss ++ ws :: wss))
  | keys {ks ls : ConstraintSet} (vs : ConstraintSet) : ConstraintSet.Rearranged ks ls →
    Constraint.Rearranged (.map ks vs) (.map ls vs)
  | values {vs ws : ConstraintSet} (ks : ConstraintSet) : ConstraintSet.Rearranged vs ws →
    Constraint.Rearranged (.map ks vs) (.map ks ws)
  | object {fs : Entries String (ObjectAttribute (List Constraint)) none} {name : String}
    {vs ws : ConstraintSet} {isOptional : Bool} (isOpen : Bool) :
    fs.get? name = some ⟨vs, isOptional⟩ → ConstraintSet.Rearranged vs ws →
    Constraint.Rearranged (.object fs isOpen) (.object (fs.insert name ⟨ws, isOptional⟩) isOpen)

end

namespace Constraint

theorem object_within_insert {fs : Entries String (ObjectAttribute (List Constraint)) none}
    {name : String} {vs ws : List Constraint} {isOptional : Bool} (isOpen : Bool)
    (hv : fs.get? name = some ⟨vs, isOptional⟩) (h : ConstraintSet.Within vs ws) :
    (object fs isOpen).Within (object (fs.insert name ⟨ws, isOptional⟩) isOpen) := by
  have hget : ∀ key b, (fs.insert name ⟨ws, isOptional⟩).get? key = some b →
      ∃ a, fs.get? key = some a ∧ a.isOptional = b.isOptional ∧
        ConstraintSet.Within a.constraints b.constraints := by
    intro key b hb
    rw [Entries.get?_insert] at hb
    split at hb
    next e =>
      cases hb
      exact ⟨⟨vs, isOptional⟩, e ▸ hv, rfl, h⟩
    next => exact ⟨b, hb, rfl, .refl _⟩
  refine object_within (fun key b hb ho => ?_) (fun key a b ha hb => ?_)
    (fun key a ha hn => ?_) (fun ho => ⟨ho, fun key b hb => ?_⟩)
  · obtain ⟨a, ha, hab, -⟩ := hget key b hb
    exact ⟨a, ha, hab.trans ho⟩
  · obtain ⟨a', ha', -, hw⟩ := hget key b hb
    cases ha.symm.trans ha'
    exact hw
  · rw [Entries.get?_insert] at hn
    split at hn
    · cases hn
    · simp [ha] at hn
  · obtain ⟨a, ha, -⟩ := hget key b hb
    exact ⟨a, ha⟩

end Constraint

namespace ConstraintSet

theorem WidensTo.within {vs ws : ConstraintSet} (h : WidensTo vs ws) : Within vs ws := by
  induction h using WidensTo.rec (motive_1 := fun v w _ => v.Within w) with
  | same v => exact fun _ hc => hc
  | any v => exact fun _ _ => rfl
  | untyped scope ofType =>
      rintro (_ | ⟨_ | s, t⟩ | _ | _ | _ | _) hc <;> simp_all [Constraint.accepts]
  | uniform _ ih => exact Constraint.uniform_within ih
  | positional hlen _ ih =>
      exact Constraint.positional_within
        (List.forall₂_iff_zip.2 ⟨hlen, fun hp => ih _ hp⟩)
  | anyLength _ ih => exact Constraint.positional_within_uniform ih
  | map _ _ ihk ihv => exact Constraint.map_within ihk ihv
  | object hrequired _ hdropped hopen ih =>
      exact Constraint.object_within hrequired ih hdropped hopen
  | nil ws => exact within_of_alternatives (by simp)
  | cons hw _ _ ih ihs =>
      intro c hc
      rw [isSatisfiedBy, Constraint.setAccepts, Bool.or_eq_true] at hc
      rcases hc with hc | hc
      · exact isSatisfiedBy_iff.2 ⟨_, hw, ih c hc⟩
      · exact ihs c hc

theorem Rearranged.within {vs ws : ConstraintSet} (h : Rearranged vs ws) :
    Within vs ws ∧ Within ws vs := by
  induction h using Rearranged.rec (motive_2 := fun v w _ => v.Within w ∧ w.Within v) with
  | perm h => exact ⟨within_of_subset fun v => h.mem_iff.1, within_of_subset fun v => h.mem_iff.2⟩
  | duplicate hv =>
      refine ⟨within_of_subset fun w hw => List.mem_cons_of_mem _ hw,
        within_of_subset fun w hw => ?_⟩
      rcases List.mem_cons.1 hw with rfl | hw
      · exact hv
      · exact hw
  | inside vs ws _ ih =>
      have hinside : ∀ v w : Constraint, v.Within w → Within (vs ++ v :: ws) (vs ++ w :: ws) := by
        intro v w hvw
        refine within_of_alternatives fun u hu => ?_
        rcases List.mem_append.1 hu with hu | hu
        · exact ⟨u, List.mem_append_left _ hu, fun _ hc => hc⟩
        rcases List.mem_cons.1 hu with rfl | hu
        · exact ⟨w, by simp, hvw⟩
        · exact ⟨u, by simp [hu], fun _ hc => hc⟩
      exact ⟨hinside _ _ ih.1, hinside _ _ ih.2⟩
  | symm _ ih => exact ih.symm
  | trans _ _ ih ih' => exact ⟨ih.1.trans ih'.1, ih'.2.trans ih.2⟩
  | uniform _ ih => exact ⟨Constraint.uniform_within ih.1, Constraint.uniform_within ih.2⟩
  | positional uss wss _ ih =>
      have hinside : ∀ vs ws : ConstraintSet, vs.Within ws →
          List.Forall₂ Within (uss ++ vs :: wss) (uss ++ ws :: wss) := fun vs ws h =>
        List.rel_append (List.forall₂_refl uss) (.cons h (List.forall₂_refl wss))
      exact ⟨Constraint.positional_within (hinside _ _ ih.1),
        Constraint.positional_within (hinside _ _ ih.2)⟩
  | keys vs _ ih =>
      exact ⟨Constraint.map_within ih.1 (.refl vs), Constraint.map_within ih.2 (.refl vs)⟩
  | values ks _ ih =>
      exact ⟨Constraint.map_within (.refl ks) ih.1, Constraint.map_within (.refl ks) ih.2⟩
  | @object fs name vs ws isOptional isOpen hv _ ih =>
      refine ⟨Constraint.object_within_insert isOpen hv ih.1, ?_⟩
      have hback : (fs.insert name ⟨ws, isOptional⟩).insert name ⟨vs, isOptional⟩ = fs := by
        refine Entries.ext_get? fun key => ?_
        rw [Entries.get?_insert, Entries.get?_insert]
        split
        next e => rw [← e, hv]
        next => rfl
      have hreverse : (Constraint.object (fs.insert name ⟨ws, isOptional⟩) isOpen).Within
          (.object ((fs.insert name ⟨ws, isOptional⟩).insert name ⟨vs, isOptional⟩) isOpen) :=
        Constraint.object_within_insert isOpen (Entries.get?_insert_self fs name _) ih.2
      rwa [hback] at hreverse

/-- A set that is widened at any depth accepts all that it accepted before. In particular the
order and the number of alternatives do not matter. -/
theorem satisfied_of_widened :
    (∀ vs ws : ConstraintSet, vs.WidensTo ws → ∀ c,
      vs.isSatisfiedBy c = true → ws.isSatisfiedBy c = true) ∧
    ∀ vs ws : ConstraintSet, vs.Rearranged ws → ∀ c, vs.isSatisfiedBy c = ws.isSatisfiedBy c := by
  refine ⟨fun vs ws h c hc => h.within c hc, fun vs ws h c => ?_⟩
  obtain ⟨hvw, hwv⟩ := h.within
  exact Bool.eq_iff_iff.2 ⟨hvw c, hwv c⟩

/-- A pair of a typed reference and a number is still accepted where a list of untyped references
and numbers is asked for, whatever the order of these two. -/
theorem satisfied_of_widened_pair :
    WidensTo [.positional [[.traversal .resource (some .string)], [.literal .number]]]
        [.typeExpression, .uniform [.literal .number, .traversal .resource none]] ∧
      Rearranged [.typeExpression, .uniform [.literal .number, .traversal .resource none]]
        [.typeExpression, .uniform [.traversal .resource none, .literal .number]] ∧
      isSatisfiedBy [.typeExpression, .uniform [.traversal .resource none, .literal .number]]
        (.tuple [.traversal (some .resource) .string, .literal .number]) = true := by
  have hwider : WidensTo [.positional [[.traversal .resource (some .string)], [.literal .number]]]
      [.typeExpression, .uniform [.literal .number, .traversal .resource none]] := by
    refine .cons (List.mem_cons_of_mem _ (List.mem_singleton_self _)) (.anyLength ?_) (.nil _)
    simp only [List.mem_cons, List.not_mem_nil, or_false, forall_eq_or_imp, forall_eq]
    exact ⟨.cons (List.mem_cons_of_mem _ (List.mem_singleton_self _)) (.untyped _ _) (.nil _),
      .cons List.mem_cons_self (.same _) (.nil _)⟩
  have horder : Rearranged [.typeExpression, .uniform [.literal .number, .traversal .resource none]]
      [.typeExpression, .uniform [.traversal .resource none, .literal .number]] :=
    .inside [.typeExpression] [] (.uniform (.perm (.swap _ _ _)))
  refine ⟨hwider, horder, ?_⟩
  rw [← satisfied_of_widened.2 _ _ horder]
  exact satisfied_of_widened.1 _ _ hwider _ (by decide)

end ConstraintSet

end ConfigSchema
