import ConfigSchema.SortedMap.Basic

/-!
Laws of finite maps, all stated through the look-up `get?`. Maps with the same look-ups are equal
(`Entries.ext_get?`), and each operation is determined by what it does to a look-up.
-/

namespace ConfigSchema

namespace Entries

variable {κ α β : Type} [Ord κ] {lo : Option κ}

@[simp] theorem toList_nil : (nil : Entries κ α lo).toList = [] := rfl

@[simp] theorem toList_cons (k : κ) (h : Above lo k) (v : α) (r : Entries κ α (some k)) :
    (cons k h v r).toList = (k, v) :: r.toList := rfl

theorem keys_eq_map_toList (m : Entries κ α lo) : m.keys = m.toList.map Prod.fst := by
  induction m with
  | nil => rfl
  | cons k h v r ih => simp [keys, ih]

theorem values_eq_map_toList (m : Entries κ α lo) : m.values = m.toList.map Prod.snd := by
  induction m with
  | nil => rfl
  | cons k h v r ih => simp [values, ih]

theorem size_eq_length_toList (m : Entries κ α lo) : m.size = m.toList.length := by
  induction m with
  | nil => rfl
  | cons k h v r ih => simp [size, ih]

@[simp] theorem toList_map (f : α → β) (m : Entries κ α lo) :
    (m.map f).toList = m.toList.map fun p => (p.1, f p.2) := by
  induction m with
  | nil => rfl
  | cons k h v r ih => simp [map, ih]

@[simp] theorem keys_map (f : α → β) (m : Entries κ α lo) : (m.map f).keys = m.keys := by
  simp [keys_eq_map_toList]

@[simp] theorem values_map (f : α → β) (m : Entries κ α lo) :
    (m.map f).values = m.values.map f := by
  simp [values_eq_map_toList]

theorem mapM?_eq_some_iff {f : α → Option β} {m : Entries κ α lo} {m' : Entries κ β lo} :
    m.mapM? f = some m' ↔ m.map f = m'.map some := by
  induction m with
  | nil => cases m' <;> simp [mapM?, map]
  | cons k h v r ih => cases m' with
    | nil =>
      simp only [mapM?, map]
      split <;> simp
    | cons k' h' v' r' =>
      simp only [mapM?, map, cons.injEq]
      constructor
      · intro e
        split at e
        next w ws hw hws =>
          simp only [Option.some.injEq, cons.injEq] at e
          obtain ⟨rfl, rfl, e⟩ := e
          cases e
          exact ⟨rfl, hw, heq_of_eq (ih.1 hws)⟩
        next => cases e
      · rintro ⟨rfl, hv, hr⟩
        rw [hv, ih.2 (eq_of_heq hr)]

section LookUp

variable [DecidableEq κ]

@[simp] theorem get?_nil (k : κ) : (nil : Entries κ α lo).get? k = none := rfl

theorem get?_cons (k j : κ) (h : Above lo k) (v : α) (r : Entries κ α (some k)) :
    (cons k h v r).get? j = if k = j then some v else r.get? j := rfl

@[simp] theorem get?_cons_self (k : κ) (h : Above lo k) (v : α) (r : Entries κ α (some k)) :
    (cons k h v r).get? k = some v := by
  simp [get?_cons]

theorem contains_iff {m : Entries κ α lo} {k : κ} :
    m.contains k = true ↔ ∃ v, m.get? k = some v := by
  simp [contains, Option.isSome_iff_exists]

theorem contains_eq_false_iff {m : Entries κ α lo} {k : κ} :
    m.contains k = false ↔ m.get? k = none := by
  simp [contains]

@[simp] theorem get?_map (f : α → β) (m : Entries κ α lo) (k : κ) :
    (m.map f).get? k = (m.get? k).map f := by
  induction m with
  | nil => rfl
  | cons key h v r ih => by_cases hk : key = k <;> simp [map, get?_cons, hk, ih]

theorem mem_toList_of_get? {m : Entries κ α lo} {k : κ} {v : α} (h : m.get? k = some v) :
    (k, v) ∈ m.toList := by
  induction m with
  | nil => simp at h
  | cons key hk w r ih =>
    by_cases e : key = k
    · simp_all [get?_cons]
    · rw [get?_cons, if_neg e] at h
      exact List.mem_cons_of_mem _ (ih h)

end LookUp

section Ordered

variable [Std.TransOrd κ]

/-- Every key of the entries comes after the bound. -/
theorem above_of_mem_toList {m : Entries κ α lo} {p : κ × α} (h : p ∈ m.toList) :
    Above lo p.1 := by
  induction m with
  | nil => simp at h
  | cons key hk w r ih =>
    rcases List.mem_cons.1 h with rfl | h
    · exact hk
    · exact hk.trans (ih h)

theorem above_of_get? [DecidableEq κ] {m : Entries κ α lo} {k : κ} {v : α}
    (h : m.get? k = some v) : Above lo k :=
  above_of_mem_toList (mem_toList_of_get? h)

theorem pairwise_toList (m : Entries κ α lo) :
    m.toList.Pairwise fun p q => compare p.1 q.1 = .lt := by
  induction m with
  | nil => exact .nil
  | cons key h v r ih =>
    exact List.pairwise_cons.2 ⟨fun p hp => Above.some_iff.1 (above_of_mem_toList hp), ih⟩

theorem pairwise_keys (m : Entries κ α lo) : m.keys.Pairwise fun k l => compare k l = .lt := by
  rw [keys_eq_map_toList]
  exact List.pairwise_map.2 m.pairwise_toList

theorem get?_eq_some_iff [DecidableEq κ] {m : Entries κ α lo} {k : κ} {v : α} :
    m.get? k = some v ↔ (k, v) ∈ m.toList := by
  refine ⟨mem_toList_of_get?, fun h => ?_⟩
  induction m with
  | nil => simp at h
  | cons key hk w r ih =>
    rcases List.mem_cons.1 h with h | h
    · cases h; simp
    · have hlt := Above.some_iff.1 (above_of_mem_toList h)
      have hne : key ≠ k := fun e => by simp [e] at hlt
      rw [get?_cons, if_neg hne]
      exact ih h

theorem get?_eq_none_of_not_above [DecidableEq κ] {m : Entries κ α lo} {k : κ}
    (h : ¬Above lo k) : m.get? k = none := by
  cases hg : m.get? k with
  | none => rfl
  | some v => exact absurd (above_of_get? hg) h

/-- What holds of all entries holds of the first one and of the others. -/
theorem forall_get?_cons [DecidableEq κ] {key : κ} {hk : Above lo key} {w : α}
    {r : Entries κ α (some key)} {P : κ → α → Prop} :
    (∀ k v, (cons key hk w r).get? k = some v → P k v) ↔
      P key w ∧ ∀ k v, r.get? k = some v → P k v := by
  constructor
  · intro h
    refine ⟨h key w (get?_cons_self ..), fun k v hv => h k v ?_⟩
    have hlt := Above.some_iff.1 (above_of_get? hv)
    have hne : key ≠ k := fun e => by simp [e] at hlt
    rw [get?_cons, if_neg hne, hv]
  · rintro ⟨hkey, hr⟩ k v hv
    rw [get?_cons] at hv
    split at hv
    next e =>
      cases hv
      exact e ▸ hkey
    next => exact hr k v hv

theorem exists_mapM?_eq_some [DecidableEq κ] {f : α → Option β} {m : Entries κ α lo}
    (h : ∀ k v, m.get? k = some v → ∃ w, f v = some w) : ∃ m', m.mapM? f = some m' := by
  induction m with
  | nil => exact ⟨nil, rfl⟩
  | cons key hk v r ih =>
      obtain ⟨hv, hr⟩ := forall_get?_cons.1 h
      obtain ⟨w, hw⟩ := hv
      obtain ⟨r', hr'⟩ := ih hr
      exact ⟨cons key hk w r', by rw [mapM?, hw, hr']⟩

theorem exists_get?_cons [DecidableEq κ] {key : κ} {hk : Above lo key} {w : α}
    {r : Entries κ α (some key)} {P : κ → α → Prop} :
    (∃ k v, (cons key hk w r).get? k = some v ∧ P k v) ↔
      P key w ∨ ∃ k v, r.get? k = some v ∧ P k v := by
  have h : ¬(∀ k v, (cons key hk w r).get? k = some v → ¬P k v) ↔
      ¬(¬P key w ∧ ∀ k v, r.get? k = some v → ¬P k v) := not_congr forall_get?_cons
  simpa [Classical.or_iff_not_imp_left] using h

theorem mem_keys_iff [DecidableEq κ] {m : Entries κ α lo} {k : κ} :
    k ∈ m.keys ↔ ∃ v, m.get? k = some v := by
  simp [keys_eq_map_toList, get?_eq_some_iff]

theorem mem_values_iff [DecidableEq κ] {m : Entries κ α lo} {v : α} :
    v ∈ m.values ↔ ∃ k, m.get? k = some v := by
  simp [values_eq_map_toList, get?_eq_some_iff]

/-- The entry under a key stands between entries under other keys. -/
theorem exists_toList_eq_append [DecidableEq κ] {m : Entries κ α lo} {k : κ} {v : α}
    (h : m.get? k = some v) : ∃ before after, m.toList = before ++ (k, v) :: after ∧
      ∀ p ∈ before ++ after, m.get? p.1 = some p.2 ∧ p.1 ≠ k := by
  obtain ⟨before, after, hsplit⟩ := List.append_of_mem (mem_toList_of_get? h)
  refine ⟨before, after, hsplit, fun p hp => ?_⟩
  have hsorted := m.pairwise_toList
  rw [hsplit, List.pairwise_append, List.pairwise_cons] at hsorted
  obtain ⟨-, ⟨hafter, -⟩, hbefore⟩ := hsorted
  rcases List.mem_append.1 hp with hp | hp
  · have hlt := hbefore p hp (k, v) List.mem_cons_self
    refine ⟨get?_eq_some_iff.2 (by simp [hsplit, hp]), fun e => ?_⟩
    rw [e] at hlt
    simp at hlt
  · have hlt := hafter p hp
    refine ⟨get?_eq_some_iff.2 (by simp [hsplit, hp]), fun e => ?_⟩
    rw [e] at hlt
    simp at hlt

/-- When one entry alone contributes to a list, the list is its contribution. -/
theorem flatMap_toList_of_get? [DecidableEq κ] {m : Entries κ α lo} {k : κ} {v : α}
    {f : κ × α → List β} (h : m.get? k = some v)
    (hothers : ∀ j w, m.get? j = some w → j ≠ k → f (j, w) = []) :
    m.toList.flatMap f = f (k, v) := by
  obtain ⟨before, after, hsplit, hkeys⟩ := exists_toList_eq_append h
  have hnone : ∀ p ∈ before ++ after, f p = [] := fun p hp =>
    hothers p.1 p.2 (hkeys p hp).1 (hkeys p hp).2
  have hbefore : before.flatMap f = [] :=
    List.flatMap_eq_nil_iff.2 fun p hp => hnone p (List.mem_append_left _ hp)
  have hafter : after.flatMap f = [] :=
    List.flatMap_eq_nil_iff.2 fun p hp => hnone p (List.mem_append_right _ hp)
  rw [hsplit, List.flatMap_append, List.flatMap_cons, hbefore, hafter, List.nil_append,
    List.append_nil]

/-- Two maps with the same look-ups are equal. -/
theorem ext_get? [DecidableEq κ] {m m' : Entries κ α lo} (h : ∀ k, m.get? k = m'.get? k) :
    m = m' := by
  induction m with
  | nil => cases m' with
    | nil => rfl
    | cons k hk v r => simpa using h k
  | cons k hk v r ih => cases m' with
    | nil => simpa using h k
    | cons k' hk' v' r' =>
      have hkk : k = k' := by
        by_cases e : k = k'
        · exact e
        · have h1 := h k
          have h2 := h k'
          rw [get?_cons_self, get?_cons, if_neg (Ne.symm e)] at h1
          rw [get?_cons_self, get?_cons, if_neg e] at h2
          have l1 := Above.some_iff.1 (above_of_get? h1.symm)
          have l2 := Above.some_iff.1 (above_of_get? h2)
          exact absurd (Std.TransCmp.lt_trans l1 l2) (by simp)
      subst hkk
      have hv : v = v' := by simpa using h k
      subst hv
      rw [ih fun j => ?_]
      by_cases e : k = j
      · subst e
        rw [get?_eq_none_of_not_above (by simp), get?_eq_none_of_not_above (by simp)]
      · simpa [get?_cons, e] using h j

/-- Maps of values agree when each key has values with the same image in both maps or is in none. -/
theorem map_eq_map_iff [DecidableEq κ] {γ : Type} {f : α → γ} {g : β → γ} {m : Entries κ α lo}
    {m' : Entries κ β lo} : m.map f = m'.map g ↔
      (∀ k v, m.get? k = some v → ∃ w, m'.get? k = some w ∧ f v = g w) ∧
        ∀ k w, m'.get? k = some w → m.contains k = true := by
  constructor
  · intro h
    have hk : ∀ k, (m.get? k).map f = (m'.get? k).map g := fun k => by
      rw [← get?_map, ← get?_map, h]
    refine ⟨fun k v hv => ?_, fun k w hw => ?_⟩
    · have hmap := hk k
      rw [hv, Option.map_some, eq_comm, Option.map_eq_some_iff] at hmap
      obtain ⟨w, hw, e⟩ := hmap
      exact ⟨w, hw, e.symm⟩
    · have hmap := hk k
      rw [hw, Option.map_some, Option.map_eq_some_iff] at hmap
      obtain ⟨v, hv, -⟩ := hmap
      exact contains_iff.2 ⟨v, hv⟩
  · rintro ⟨hkept, hnone⟩
    refine ext_get? fun k => ?_
    rw [get?_map, get?_map]
    cases hv : m.get? k with
    | some v =>
      obtain ⟨w, hw, e⟩ := hkept k v hv
      rw [hw, Option.map_some, Option.map_some, e]
    | none =>
      cases hw : m'.get? k with
      | none => rfl
      | some w =>
        obtain ⟨v, hv'⟩ := contains_iff.1 (hnone k w hw)
        cases hv.symm.trans hv'

@[simp] theorem get?_lower [DecidableEq κ] {l : κ} (h : Above lo l) (m : Entries κ α (some l))
    (k : κ) : (m.lower h).get? k = m.get? k := by
  cases m <;> rfl

@[simp] theorem get?_erase_self [DecidableEq κ] (m : Entries κ α lo) (k : κ) :
    (m.erase k).get? k = none := by
  induction m with
  | nil => rfl
  | cons key h v r ih =>
    by_cases e : key = k
    · subst e
      rw [erase, if_pos rfl, get?_lower, get?_eq_none_of_not_above (by simp)]
    · rw [erase, if_neg e, get?_cons, if_neg e, ih]

theorem get?_erase_of_ne [DecidableEq κ] (m : Entries κ α lo) {k j : κ} (hj : k ≠ j) :
    (m.erase k).get? j = m.get? j := by
  induction m with
  | nil => rfl
  | cons key h v r ih =>
    by_cases e : key = k
    · subst e
      rw [erase, if_pos rfl, get?_lower, get?_cons, if_neg hj]
    · rw [erase, if_neg e, get?_cons, get?_cons, ih]

theorem get?_erase [DecidableEq κ] (m : Entries κ α lo) (k j : κ) :
    (m.erase k).get? j = if k = j then none else m.get? j := by
  by_cases e : k = j
  · subst e; simp
  · rw [get?_erase_of_ne m e, if_neg e]

theorem get?_insertAbove [Std.LawfulEqOrd κ] [DecidableEq κ] (m : Entries κ α lo) (k j : κ) (v : α)
    (h : Above lo k) : (m.insertAbove k v h).get? j = if k = j then some v else m.get? j := by
  induction m with
  | nil => simp [insertAbove, get?_cons]
  | cons key hk w r ih =>
    rw [insertAbove]
    split
    next => simp [get?_cons]
    next hc =>
      obtain rfl := Std.LawfulEqOrd.eq_of_compare hc
      by_cases e : k = j <;> simp [get?_cons, e]
    next hc =>
      have hne : key ≠ k := fun e => by simp [e] at hc
      rw [get?_cons, get?_cons, ih]
      by_cases e : key = j
      · subst e
        simp [Ne.symm hne]
      · simp [e]

theorem get?_insert [Std.LawfulEqOrd κ] [DecidableEq κ] (m : Entries κ α none) (k j : κ) (v : α) :
    (m.insert k v).get? j = if k = j then some v else m.get? j :=
  get?_insertAbove m k j v .absent

@[simp] theorem get?_insert_self [Std.LawfulEqOrd κ] [DecidableEq κ] (m : Entries κ α none) (k : κ)
    (v : α) : (m.insert k v).get? k = some v := by
  simp [get?_insert]

theorem get?_insert_of_ne [Std.LawfulEqOrd κ] [DecidableEq κ] (m : Entries κ α none) {k j : κ}
    (h : k ≠ j) (v : α) : (m.insert k v).get? j = m.get? j := by
  simp [get?_insert, h]

/-- The only entry that is new in a map with one more key. -/
theorem filter_toList_insert [Std.LawfulEqOrd κ] [DecidableEq κ] {m : Entries κ α none} {k : κ}
    (h : m.get? k = none) (v : α) :
    ((m.insert k v).toList.filter fun p => !m.contains p.1) = [(k, v)] := by
  obtain ⟨before, after, hsplit, hkeys⟩ := exists_toList_eq_append (get?_insert_self m k v)
  have hold : ∀ p ∈ before ++ after, ¬(!m.contains p.1) = true := fun p hp => by
    obtain ⟨hp, hne⟩ := hkeys p hp
    rw [get?_insert_of_ne _ hne.symm] at hp
    simp [contains, hp]
  have hbefore : (before.filter fun p => !m.contains p.1) = [] :=
    List.filter_eq_nil_iff.2 fun p hp => hold p (List.mem_append_left _ hp)
  have hafter : (after.filter fun p => !m.contains p.1) = [] :=
    List.filter_eq_nil_iff.2 fun p hp => hold p (List.mem_append_right _ hp)
  have hnew : (!m.contains k) = true := by simp [contains, h]
  rw [hsplit, List.filter_append, List.filter_cons, if_pos hnew, hbefore, hafter, List.nil_append]

/-- A map with a value for each of the given keys, when each of them has a suitable value. -/
theorem exists_of_forall_mem [Std.LawfulEqOrd κ] [DecidableEq κ] {P : κ → α → Prop} {ks : List κ}
    (h : ∀ k ∈ ks, ∃ v, P k v) :
    ∃ m : Entries κ α none, (∀ k ∈ ks, m.contains k = true) ∧ ∀ k v, m.get? k = some v → P k v := by
  induction ks with
  | nil => exact ⟨nil, by simp, by simp⟩
  | cons k ks ih =>
    obtain ⟨m, hm, hP⟩ := ih fun j hj => h j (List.mem_cons_of_mem k hj)
    obtain ⟨v, hv⟩ := h k List.mem_cons_self
    refine ⟨m.insert k v, fun j hj => ?_, fun j w hw => ?_⟩
    · rw [contains, get?_insert]
      split
      next => rfl
      next hne =>
        rcases List.mem_cons.1 hj with rfl | hj
        · exact absurd rfl hne
        · exact hm j hj
    · rw [get?_insert] at hw
      split at hw
      next e =>
        cases hw
        exact e ▸ hv
      next => exact hP j w hw

end Ordered

end Entries

end ConfigSchema
