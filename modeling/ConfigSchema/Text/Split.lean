/-!
Splitting a text at a separator and joining it again. Joining the pieces of a text gives the text
back, and splitting a join gives back its pieces when none of them holds the separator.
-/

namespace ConfigSchema.Text

/-- The first piece before a separator, and the pieces that follow it. -/
def pieces (sep : Char) : List Char → List Char × List (List Char)
  | [] => ([], [])
  | c :: cs =>
    let (first, others) := pieces sep cs
    if c = sep then ([], first :: others) else (c :: first, others)

/-- The pieces between separators; a text without a separator is one piece. -/
def splitAt (sep : Char) (cs : List Char) : List (List Char) :=
  (pieces sep cs).1 :: (pieces sep cs).2

def join (sep : Char) : List (List Char) → List Char
  | [] => []
  | [w] => w
  | w :: ws => w ++ sep :: join sep ws

@[simp] theorem splitAt_nil (sep : Char) : splitAt sep [] = [[]] := rfl

theorem splitAt_cons_sep (sep : Char) (cs : List Char) :
    splitAt sep (sep :: cs) = [] :: splitAt sep cs := by
  simp [splitAt, pieces]

theorem splitAt_of_not_mem {sep : Char} {w : List Char} (h : sep ∉ w) : splitAt sep w = [w] := by
  induction w with
  | nil => rfl
  | cons c cs ih =>
    have hc : c ≠ sep := fun e => h (by simp [e])
    have := ih fun m => h (List.mem_cons_of_mem _ m)
    simp only [splitAt, List.cons.injEq] at this
    simp [splitAt, pieces, hc, this.1, this.2]

/-- At a separator a text falls apart into two that are split on their own. -/
theorem splitAt_append_cons (sep : Char) (cs ds : List Char) :
    splitAt sep (cs ++ sep :: ds) = splitAt sep cs ++ splitAt sep ds := by
  induction cs with
  | nil => exact splitAt_cons_sep sep ds
  | cons c cs ih =>
    rw [List.cons_append]
    by_cases hc : c = sep
    · subst hc
      rw [splitAt_cons_sep, splitAt_cons_sep, ih, List.cons_append]
    · -- the character goes in front of the first piece on both sides
      simp only [splitAt, List.cons_append, List.cons.injEq] at ih
      simp [splitAt, pieces, hc, ih.1, ih.2]

/-- A text up to a separator is the first piece, whatever follows. -/
theorem splitAt_append_sep {sep : Char} {w : List Char} (h : sep ∉ w) (cs : List Char) :
    splitAt sep (w ++ sep :: cs) = w :: splitAt sep cs := by
  rw [splitAt_append_cons, splitAt_of_not_mem h, List.singleton_append]

theorem splitAt_join {sep : Char} {ws : List (List Char)} (hne : ws ≠ [])
    (h : ∀ w ∈ ws, sep ∉ w) : splitAt sep (join sep ws) = ws := by
  induction ws with
  | nil => exact absurd rfl hne
  | cons w ws ih =>
    cases ws with
    | nil => exact splitAt_of_not_mem (h w (by simp))
    | cons w' ws =>
      rw [join, splitAt_append_sep (h w (by simp)), ih (by simp) fun v hv => h v (by simp [hv])]
      simp

theorem join_splitAt (sep : Char) (cs : List Char) : join sep (splitAt sep cs) = cs := by
  induction cs with
  | nil => rfl
  | cons c cs ih =>
    by_cases hc : c = sep
    · subst hc
      rw [splitAt_cons_sep, splitAt, join, ← splitAt, ih]
      · rfl
      · simp
    · simp only [splitAt, pieces, hc, if_false] at ih ⊢
      revert ih
      cases (pieces sep cs).2 with
      | nil => simp [join]
      | cons w ws => simp [join]

theorem not_mem_of_mem_splitAt {sep : Char} {cs w : List Char} (h : w ∈ splitAt sep cs) :
    sep ∉ w := by
  induction cs generalizing w with
  | nil => simp_all
  | cons c cs ih =>
    by_cases hc : c = sep
    · subst hc
      rw [splitAt_cons_sep] at h
      rcases List.mem_cons.1 h with rfl | h
      · simp
      · exact ih h
    · simp only [splitAt, pieces, hc, if_false] at h ih
      rcases List.mem_cons.1 h with rfl | h
      · have := ih (w := (pieces sep cs).1) (by simp)
        simpa [Ne.symm hc] using this
      · exact ih (List.mem_cons_of_mem _ h)

end ConfigSchema.Text
