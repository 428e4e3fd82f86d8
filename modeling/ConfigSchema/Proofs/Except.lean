import Mathlib.Data.List.Forall2

/-!
Results of computations that can fail. Each of the operations that put such computations together is
described by when it succeeds, and with what; a computation along a list fails where one of the
entries does for the first time.
-/

namespace ConfigSchema

variable {ε α β : Type}

theorem map_eq_ok_iff {f : α → β} {x : Except ε α} {y : β} :
    x.map f = .ok y ↔ ∃ a, x = .ok a ∧ f a = y := by
  cases x <;> simp [Except.map]

theorem toOption_eq_some_iff {x : Except ε α} {a : α} : x.toOption = some a ↔ x = .ok a := by
  cases x <;> simp [Except.toOption]

theorem map_eq_error_iff {f : α → β} {x : Except ε α} {e : ε} :
    x.map f = .error e ↔ x = .error e := by
  cases x <;> simp [Except.map]

theorem mapError_eq_ok_iff {ε' : Type} {x : Except ε α} {f : ε → ε'} {a : α} :
    x.mapError f = .ok a ↔ x = .ok a := by
  cases x <;> simp [Except.mapError]

theorem bind_eq_ok_iff {x : Except ε α} {f : α → Except ε β} {b : β} :
    x >>= f = .ok b ↔ ∃ a, x = .ok a ∧ f a = .ok b := by
  cases x <;> simp [bind, Except.bind]

theorem bind_eq_error_iff {x : Except ε α} {f : α → Except ε β} {e : ε} :
    x >>= f = .error e ↔ x = .error e ∨ ∃ a, x = .ok a ∧ f a = .error e := by
  cases x <;> simp [bind, Except.bind]

theorem mapM_eq_ok_iff {f : α → Except ε β} {l : List α} {ys : List β} :
    l.mapM f = .ok ys ↔ List.Forall₂ (fun x y => f x = .ok y) l ys := by
  induction l generalizing ys with
  | nil =>
      rw [List.mapM_nil, List.forall₂_nil_left_iff]
      exact ⟨fun h => (Except.ok.inj h).symm, fun h => h ▸ rfl⟩
  | cons x l ih =>
      simp only [List.mapM_cons, bind_eq_ok_iff, ih, List.forall₂_cons_left_iff]
      constructor
      · rintro ⟨y, hy, zs, hzs, ⟨⟩⟩
        exact ⟨y, zs, hy, hzs, rfl⟩
      · rintro ⟨y, zs, hy, hzs, rfl⟩
        exact ⟨y, hy, zs, hzs, rfl⟩

/-- A computation along a list fails where an entry fails for the first time. -/
theorem mapM_eq_error_iff {f : α → Except ε β} {l : List α} {e : ε} : l.mapM f = .error e ↔
    ∃ before x after, l = before ++ x :: after ∧ (∃ ys, before.mapM f = .ok ys) ∧
      f x = .error e := by
  induction l with
  | nil => simp [pure, Except.pure]
  | cons x l ih =>
      rw [List.mapM_cons, bind_eq_error_iff]
      constructor
      · rintro (hx | ⟨y, hy, h⟩)
        · exact ⟨[], x, l, rfl, ⟨[], rfl⟩, hx⟩
        · rcases bind_eq_error_iff.1 h with hl | ⟨ys, -, ⟨⟩⟩
          obtain ⟨before, x', after, rfl, ⟨ys, hys⟩, hx'⟩ := ih.1 hl
          refine ⟨x :: before, x', after, rfl, ⟨y :: ys, ?_⟩, hx'⟩
          rw [List.mapM_cons, hy, hys]
          rfl
      · rintro ⟨before, x', after, hsplit, ⟨ys, hys⟩, hx'⟩
        cases before with
        | nil =>
            obtain ⟨rfl, rfl⟩ := List.cons.inj hsplit
            exact .inl hx'
        | cons z before =>
            obtain ⟨rfl, rfl⟩ := List.cons.inj hsplit
            rw [List.mapM_cons, bind_eq_ok_iff] at hys
            obtain ⟨y, hy, hys⟩ := hys
            obtain ⟨zs, hzs, -⟩ := bind_eq_ok_iff.1 hys
            refine .inr ⟨y, hy, bind_eq_error_iff.2 (.inl ?_)⟩
            exact ih.2 ⟨before, x', after, rfl, ⟨zs, hzs⟩, hx'⟩

end ConfigSchema
