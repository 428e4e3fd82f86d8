import ConfigSchema.Evolution.Basic
import ConfigSchema.Proofs.Except

/-!
Runs of deltas. A run either leads to a tree or stops at the first delta that fails, and a schema is
built exactly when the run of its deltas leads to a tree without defects.
-/

namespace ConfigSchema

namespace Delta

/-- The deltas can be applied one after another and lead from the first tree to the second one. -/
inductive Leads : List Delta → SchemaTree → SchemaTree → Prop
  | nil (t : SchemaTree) : Leads [] t t
  | cons {d : Delta} {ds : List Delta} {t u w : SchemaTree} :
    d.apply t = .ok u → Leads ds u w → Leads (d :: ds) t w

/-- One of the deltas fails with the error, and those before it can be applied. -/
inductive FailsWith : List Delta → SchemaTree → SchemaError → Prop
  | here {d : Delta} {ds : List Delta} {t : SchemaTree} {err : SchemaError} :
    d.apply t = .error err → FailsWith (d :: ds) t err
  | later {d : Delta} {ds : List Delta} {t u : SchemaTree} {err : SchemaError} :
    d.apply t = .ok u → FailsWith ds u err → FailsWith (d :: ds) t err

/-- A run of deltas is a run of the first ones, followed by one of the others. -/
theorem leads_append {ds es : List Delta} {t w : SchemaTree} :
    Leads (ds ++ es) t w ↔ ∃ u, Leads ds t u ∧ Leads es u w := by
  induction ds generalizing t with
  | nil =>
      refine ⟨fun h => ⟨t, .nil t, h⟩, ?_⟩
      rintro ⟨u, hu, h⟩
      cases hu
      exact h
  | cons d ds ih =>
      constructor
      · rintro (_ | ⟨hd, h⟩)
        obtain ⟨u, hu, hw⟩ := ih.1 h
        exact ⟨u, .cons hd hu, hw⟩
      · rintro ⟨u, _ | ⟨hd, hu⟩, hw⟩
        exact .cons hd (ih.2 ⟨u, hu, hw⟩)

theorem Leads.unique {ds : List Delta} {t u w : SchemaTree} (h : Leads ds t u)
    (h' : Leads ds t w) : u = w := by
  induction h with
  | nil =>
      cases h'
      rfl
  | cons hd _ ih =>
      obtain _ | ⟨hd', h'⟩ := h'
      cases hd.symm.trans hd'
      exact ih h'

end Delta

namespace Evolution

open Delta

theorem applyAll_cons (d : Delta) (ds : List Delta) (t : SchemaTree) :
    applyAll (d :: ds) t = d.apply t >>= applyAll ds := rfl

theorem applyAll_eq_ok_iff {ds : List Delta} {t w : SchemaTree} :
    applyAll ds t = .ok w ↔ Leads ds t w := by
  induction ds generalizing t with
  | nil =>
      constructor
      · rintro ⟨⟩
        exact .nil _
      · rintro ⟨⟩
        rfl
  | cons d ds ih =>
      rw [applyAll_cons, bind_eq_ok_iff]
      constructor
      · rintro ⟨u, hd, h⟩
        exact .cons hd (ih.1 h)
      · rintro (_ | ⟨hd, h⟩)
        exact ⟨_, hd, ih.2 h⟩

theorem applyAll_eq_error_iff {ds : List Delta} {t : SchemaTree} {err : SchemaError} :
    applyAll ds t = .error err ↔ FailsWith ds t err := by
  induction ds generalizing t with
  | nil => constructor <;> rintro ⟨⟩
  | cons d ds ih =>
      rw [applyAll_cons, bind_eq_error_iff]
      constructor
      · rintro (hd | ⟨u, hd, h⟩)
        · exact .here hd
        · exact .later hd (ih.1 h)
      · rintro (hd | ⟨hd, h⟩)
        · exact .inl hd
        · exact .inr ⟨_, hd, ih.2 h⟩

theorem validated_eq_ok_iff {t w : SchemaTree} :
    validated t = .ok w ↔ t = w ∧ t.validate = .ok () := by
  rw [validated, map_eq_ok_iff]
  constructor
  · rintro ⟨⟨⟩, hvalid, rfl⟩
    exact ⟨rfl, hvalid⟩
  · rintro ⟨rfl, hvalid⟩
    exact ⟨(), hvalid, rfl⟩

theorem validated_eq_error_iff {t : SchemaTree} {err : SchemaError} :
    validated t = .error err ↔ t.validate = .error err :=
  map_eq_error_iff

theorem build_eq_ok_iff {e : Evolution} {v : Version} {t : SchemaTree} :
    e.build v = .ok t ↔ Leads (e.deltasAt v.core) e.base t ∧ t.validate = .ok () := by
  simp only [build, bind_eq_ok_iff, applyAll_eq_ok_iff, validated_eq_ok_iff]
  constructor
  · rintro ⟨_, h, rfl, hvalid⟩
    exact ⟨h, hvalid⟩
  · rintro ⟨h, hvalid⟩
    exact ⟨t, h, rfl, hvalid⟩

theorem build_eq_error_iff {e : Evolution} {v : Version} {err : SchemaError} :
    e.build v = .error err ↔ FailsWith (e.deltasAt v.core) e.base err ∨
      ∃ t, Leads (e.deltasAt v.core) e.base t ∧ t.validate = .error err := by
  simp only [build, bind_eq_error_iff, applyAll_eq_ok_iff, applyAll_eq_error_iff,
    validated_eq_error_iff]

end Evolution

end ConfigSchema
