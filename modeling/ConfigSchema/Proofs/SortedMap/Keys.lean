import Mathlib.Data.List.Perm.Subperm
import ConfigSchema.SortedMap.Lemmas

/-!
Maps with the same keys. They are of the same size, and a map that has all keys of another one of
its size has no others.
-/

namespace ConfigSchema

namespace Entries

variable {α β γ : Type} {m : SortedMap String α} {m' : SortedMap String β}
  {m'' : SortedMap String γ}

/-- The maps have values under the same keys. -/
def SameKeys (m : SortedMap String α) (m' : SortedMap String β) : Prop :=
  ∀ k, m.contains k = true ↔ m'.contains k = true

namespace SameKeys

theorem refl (m : SortedMap String α) : SameKeys m m := fun _ => Iff.rfl

theorem symm (h : SameKeys m m') : SameKeys m' m := fun k => (h k).symm

theorem trans (h : SameKeys m m') (h' : SameKeys m' m'') : SameKeys m m'' :=
  fun k => (h k).trans (h' k)

theorem map (f : α → β) (m : SortedMap String α) : SameKeys (m.map f) m := by
  intro k
  simp [contains]

theorem exists_get? (h : SameKeys m m') {k : String} {v : α} (hv : m.get? k = some v) :
    ∃ w, m'.get? k = some w :=
  contains_iff.1 ((h k).1 (contains_iff.2 ⟨v, hv⟩))

theorem get?_eq_none (h : SameKeys m m') {k : String} (hk : m.get? k = none) :
    m'.get? k = none := by
  cases hw : m'.get? k with
  | none => rfl
  | some w =>
      obtain ⟨v, hv⟩ := h.symm.exists_get? hw
      cases hk.symm.trans hv

end SameKeys

theorem length_keys {lo : Option String} (m : Entries String α lo) : m.keys.length = m.size := by
  rw [keys_eq_map_toList, size_eq_length_toList, List.length_map]

/-- A map that has all keys of another one of the same size has no others. -/
theorem sameKeys_of_size_eq (hsize : m.size = m'.size)
    (h : ∀ k, m'.contains k = true → m.contains k = true) : SameKeys m m' := by
  refine fun k => ⟨fun hk => ?_, h k⟩
  have hnodup : m'.keys.Nodup := m'.pairwise_keys.imp fun hlt heq => by simp [heq] at hlt
  have hsubset : m'.keys ⊆ m.keys := by
    intro j hj
    rw [mem_keys_iff, ← contains_iff] at hj ⊢
    exact h j hj
  have hlength : m.keys.length ≤ m'.keys.length :=
    Nat.le_of_eq (by rw [length_keys, length_keys, hsize])
  have hperm := (List.subperm_of_subset hnodup hsubset).perm_of_length_le hlength
  rw [contains_iff, ← mem_keys_iff] at hk ⊢
  exact hperm.mem_iff.2 hk

theorem SameKeys.size_eq (h : SameKeys m m') : m.size = m'.size := by
  have hunits : m.map (fun _ => ()) = m'.map fun _ => () := by
    refine map_eq_map_iff.2 ⟨fun k v hv => ?_, fun k w hw => ?_⟩
    · obtain ⟨w, hw⟩ := h.exists_get? hv
      exact ⟨w, hw, rfl⟩
    · exact (h k).2 (contains_iff.2 ⟨w, hw⟩)
  simpa [size_eq_length_toList] using congrArg size hunits

end Entries

end ConfigSchema
