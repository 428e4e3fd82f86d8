import Mathlib.Data.List.Basic

/-!
Lists in the order of a key. Sorting keeps the entries of each key in their order, and a list in
order is determined by the entries of each key. Main statement: sorting lists the keys in ascending
order, each with its entries.
-/

namespace ConfigSchema.Sorting

variable {α κ : Type} {key : α → κ}

theorem mem_iff_of_filter_eq [DecidableEq κ] {l l' : List α}
    (h : ∀ k, (l.filter fun a => key a = k) = l'.filter fun a => key a = k) (a : α) :
    a ∈ l ↔ a ∈ l' := by
  have ha := congrArg (a ∈ ·) (h (key a))
  simpa using ha

variable [LE κ]

theorem key_head_le [Std.IsPreorder κ] {a b : α} {l : List α}
    (h : (a :: l).Pairwise fun x y => key x ≤ key y) (hb : b ∈ a :: l) : key a ≤ key b := by
  rcases List.mem_cons.1 hb with rfl | hb
  · exact Std.le_refl _
  · exact List.rel_of_pairwise_cons h hb

/-- Lists in the order of a key are determined by the entries of each key. -/
theorem eq_of_filter_eq [DecidableEq κ] [Std.IsPartialOrder κ] {l l' : List α}
    (hl : l.Pairwise fun a b => key a ≤ key b) (hl' : l'.Pairwise fun a b => key a ≤ key b)
    (h : ∀ k, (l.filter fun a => key a = k) = l'.filter fun a => key a = k) : l = l' := by
  induction l generalizing l' with
  | nil =>
      refine (List.eq_nil_iff_forall_not_mem.2 fun a ha => ?_).symm
      simpa using (mem_iff_of_filter_eq h a).2 ha
  | cons a l ih =>
      cases l' with
      | nil => simpa using (mem_iff_of_filter_eq h a).1 List.mem_cons_self
      | cons b l' =>
          -- each head is in the other list, so they have the lowest key of both
          have hkey : key b = key a := Std.le_antisymm
            (key_head_le hl' ((mem_iff_of_filter_eq h a).1 List.mem_cons_self))
            (key_head_le hl ((mem_iff_of_filter_eq h b).2 List.mem_cons_self))
          have hlowest := h (key a)
          simp only [List.filter_cons, hkey, decide_true, if_true, List.cons.injEq] at hlowest
          obtain ⟨rfl, -⟩ := hlowest
          have hrest : ∀ k, (l.filter fun a => key a = k) = l'.filter fun a => key a = k :=
            fun k => by
              have hboth := h k
              by_cases ha : key a = k <;> simpa [List.filter_cons, ha] using hboth
          rw [ih hl.of_cons hl'.of_cons hrest]

section Listed

variable [LT κ] [Std.LawfulOrderLT κ] [DecidableEq κ] (l : List α) {ks : List κ}

/-- The entries of the listed keys, key by key. -/
theorem filter_flatMap_filter (h : ks.Pairwise (· < ·)) (k : κ) :
    ((ks.flatMap fun j => l.filter fun a => key a = j).filter fun a => key a = k) =
      if k ∈ ks then l.filter fun a => key a = k else [] := by
  induction ks with
  | nil => simp
  | cons j ks ih =>
      obtain ⟨hj, hks⟩ := List.pairwise_cons.1 h
      rw [List.flatMap_cons, List.filter_append, ih hks, List.filter_filter]
      by_cases e : k = j
      · -- keys that come first do not come again
        subst e
        have hlater : k ∉ ks := fun hmem => Std.lt_irrefl (hj k hmem)
        simp [hlater]
      · have hnone : (l.filter fun a => decide (key a = k) && decide (key a = j)) = [] := by
          rw [List.filter_eq_nil_iff]
          intro a _ ha
          rw [Bool.and_eq_true, decide_eq_true_eq, decide_eq_true_eq] at ha
          exact e (ha.1.symm.trans ha.2)
        rw [hnone, List.nil_append]
        simp [e]

theorem pairwise_flatMap_filter [Std.IsPreorder κ] (h : ks.Pairwise (· < ·)) :
    (ks.flatMap fun k => l.filter fun a => key a = k).Pairwise fun a b => key a ≤ key b := by
  have hkey : ∀ k, ∀ a ∈ l.filter (fun a => key a = k), key a = k :=
    fun k a ha => of_decide_eq_true (List.mem_filter.1 ha).2
  rw [List.pairwise_flatMap]
  refine ⟨fun k _ => List.pairwise_of_forall_mem_list fun a ha b hb => ?_,
    h.imp fun hlt a ha b hb => ?_⟩
  · rw [hkey k a ha, hkey k b hb]
    exact Std.le_refl k
  · rw [hkey _ a ha, hkey _ b hb]
    exact Std.le_of_lt hlt

end Listed

section MergeSort

variable [DecidableLE κ]

theorem decide_key_trans [Std.IsPreorder κ] (key : α → κ) (a b c : α)
    (hab : decide (key a ≤ key b) = true) (hbc : decide (key b ≤ key c) = true) :
    decide (key a ≤ key c) = true :=
  decide_eq_true (Std.le_trans (of_decide_eq_true hab) (of_decide_eq_true hbc))

variable [Std.IsLinearOrder κ]

theorem decide_key_total (key : α → κ) (a b : α) :
    (decide (key a ≤ key b) || decide (key b ≤ key a)) = true := by
  simpa using Std.le_total

theorem pairwise_mergeSort (l : List α) :
    (l.mergeSort fun a b => key a ≤ key b).Pairwise fun a b => key a ≤ key b := by
  have hsorted := List.pairwise_mergeSort (decide_key_trans key) (decide_key_total key) l
  exact hsorted.imp fun hab => of_decide_eq_true hab

variable [DecidableEq κ]

/-- Sorting keeps the entries of one key in their order. -/
theorem filter_mergeSort (l : List α) (k : κ) :
    ((l.mergeSort fun a b => key a ≤ key b).filter fun a => key a = k) =
      l.filter fun a => key a = k := by
  have hequal : (l.filter fun a => key a = k).Pairwise fun a b => decide (key a ≤ key b) := by
    refine List.pairwise_of_forall_mem_list fun a ha b hb => ?_
    have ha := of_decide_eq_true (List.mem_filter.1 ha).2
    have hb := of_decide_eq_true (List.mem_filter.1 hb).2
    simp [ha, hb]
  -- a sublist that is sorted already is kept, and the sorted list has no more of these entries
  have hkept := (List.sublist_mergeSort (decide_key_trans key) (decide_key_total key) hequal
    List.filter_sublist).filter fun a => key a = k
  simp only [List.filter_filter, Bool.and_self] at hkept
  have hlength := ((List.mergeSort_perm l fun a b => key a ≤ key b).filter
    fun a => key a = k).length_eq
  exact (hkept.eq_of_length hlength.symm).symm

theorem mergeSort_eq_flatMap [LT κ] [Std.LawfulOrderLT κ] {l : List α} {ks : List κ}
    (h : ks.Pairwise (· < ·)) (hall : ∀ a ∈ l, key a ∈ ks) :
    (l.mergeSort fun a b => key a ≤ key b) =
      ks.flatMap fun k => l.filter fun a => key a = k := by
  refine eq_of_filter_eq (pairwise_mergeSort l) (pairwise_flatMap_filter l h) fun k => ?_
  rw [filter_mergeSort, filter_flatMap_filter l h]
  split
  next => rfl
  next hk =>
    rw [List.filter_eq_nil_iff]
    intro a ha e
    exact hk (of_decide_eq_true e ▸ hall a ha)

end MergeSort

end ConfigSchema.Sorting
