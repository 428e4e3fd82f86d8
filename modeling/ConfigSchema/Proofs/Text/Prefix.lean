/-!
The characters of a class at the front of a text, such as the digits of a number. Where a text that
consists of them is followed by something that does not go on with one of them, they can be told from
what follows.
-/

namespace ConfigSchema

theorem isDigit_toDigits {n : Nat} {c : Char} (hc : c ∈ Nat.toDigits 10 n) : c.isDigit = true :=
  Nat.isDigit_of_mem_toDigits (by decide) (by decide) hc

namespace Text

/-- The characters do not go on with one of the class. -/
def Stops (p : Char → Bool) (cs : List Char) : Prop := ∀ c, cs.head? = some c → p c = false

theorem stops_nil (p : Char → Bool) : Stops p [] := by
  intro c hc
  cases hc

theorem stops_cons {p : Char → Bool} {c : Char} {cs : List Char} (h : p c = false) :
    Stops p (c :: cs) := by
  rintro _ ⟨⟩
  exact h

theorem takeWhile_append {p : Char → Bool} {body rest : List Char} (hbody : ∀ c ∈ body, p c = true)
    (hrest : Stops p rest) : (body ++ rest).takeWhile p = body := by
  rw [List.takeWhile_append_of_pos hbody]
  cases rest with
  | nil => simp
  | cons c cs => simp [hrest c rfl]

theorem dropWhile_append {p : Char → Bool} {body rest : List Char} (hbody : ∀ c ∈ body, p c = true)
    (hrest : Stops p rest) : (body ++ rest).dropWhile p = rest := by
  rw [List.dropWhile_append_of_pos hbody]
  cases rest with
  | nil => rfl
  | cons c cs => simp [hrest c rfl]

/-- What stands in front of a character outside the class is determined, and so is what follows. -/
theorem append_inj_of_stops {p : Char → Bool} {body body' rest rest' : List Char}
    (hbody : ∀ c ∈ body, p c = true) (hbody' : ∀ c ∈ body', p c = true) (hrest : Stops p rest)
    (hrest' : Stops p rest') (h : body ++ rest = body' ++ rest') : body = body' ∧ rest = rest' := by
  constructor
  · rw [← takeWhile_append hbody hrest, h, takeWhile_append hbody' hrest']
  · rw [← dropWhile_append hbody hrest, h, dropWhile_append hbody' hrest']

/-- Two texts whose first pieces hold no separator are equal only piece by piece. -/
theorem sep_append_inj {sep : Char} {cs ds u w : List Char} (hcs : sep ∉ cs) (hds : sep ∉ ds)
    (h : cs ++ sep :: u = ds ++ sep :: w) : cs = ds ∧ u = w := by
  have hfree : ∀ {as : List Char}, sep ∉ as → ∀ c ∈ as, (c != sep) = true := by
    intro as has c hc
    rw [bne_iff_ne]
    rintro rfl
    exact has hc
  have hstops : ∀ as : List Char, Stops (· != sep) (sep :: as) := fun _ => stops_cons (by simp)
  obtain ⟨hfirst, hlast⟩ := append_inj_of_stops (hfree hcs) (hfree hds) (hstops u) (hstops w) h
  exact ⟨hfirst, (List.cons.inj hlast).2⟩

/-- Two texts whose last pieces hold no separator are equal only piece by piece. -/
theorem append_sep_inj {sep : Char} {cs ds u w : List Char} (hu : sep ∉ u) (hw : sep ∉ w)
    (h : cs ++ sep :: u = ds ++ sep :: w) : cs = ds ∧ u = w := by
  obtain ⟨as, rfl, has⟩ | ⟨as, rfl, has⟩ := List.append_eq_append_iff.1 h
  · cases as with
    | nil => simpa using has
    | cons a as => simp_all
  · cases as with
    | nil => simpa using has.symm
    | cons a as => simp_all

end Text

end ConfigSchema
