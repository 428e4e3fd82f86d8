import ConfigSchema.RefPath
import ConfigSchema.Schema.Basic
import ConfigSchema.SortedMap.Lemmas

/-!
Blocks by their paths. What is nested in a map of blocks is one of its blocks, or nested in one, and
the dotted text of a path begins with the name of that block.
-/

namespace ConfigSchema

namespace RefPath

@[simp] theorem text_singleton (name : String) : (mk [name]).text = name := by
  simp [text, Text.join]

theorem text_cons {name : String} {names : List String} (h : names ≠ []) :
    (mk (name :: names)).text = name ++ "." ++ (mk names).text := by
  cases names with
  | nil => exact absurd rfl h
  | cons next rest =>
      apply String.toList_injective
      simp [text, Text.join]

end RefPath

namespace BlockMap

theorem ne_nil_of_at? {m : BlockMap} {names : List String} {b : BlockSchema}
    (h : at? m names = some b) : names ≠ [] := by
  rintro rfl
  cases h

theorem at?_cons {m : BlockMap} {name : String} {names : List String} (h : names ≠ []) :
    at? m (name :: names) = (m.get? name).bind fun b => at? b.blocks names := by
  cases names with
  | nil => exact absurd rfl h
  | cons next rest => rfl

/-- The blocks below a path; the empty path leads to the blocks of the map itself. -/
def blocksAt? (m : BlockMap) : List String → Option BlockMap
  | [] => some m
  | name :: rest => (m.get? name).bind fun b => blocksAt? b.blocks rest

theorem at?_concat (m : BlockMap) (path : List String) (name : String) :
    m.at? (path ++ [name]) = (m.blocksAt? path).bind fun blocks => blocks.get? name := by
  induction path generalizing m with
  | nil => rfl
  | cons next path ih =>
      rw [List.cons_append, at?_cons (by simp), blocksAt?]
      cases m.get? next with
      | none => rfl
      | some b => exact ih b.blocks

/-- A nested block is found in the map itself or below one of its blocks. -/
theorem exists_at?_iff {m : BlockMap} {P : List String → BlockSchema → Prop} :
    (∃ names b, at? m names = some b ∧ P names b) ↔
      ∃ name b, m.get? name = some b ∧
        (P [name] b ∨ ∃ names n, at? b.blocks names = some n ∧ P (name :: names) n) := by
  constructor
  · rintro ⟨names, b, hb, hP⟩
    cases names with
    | nil => cases hb
    | cons name names =>
        by_cases hnames : names = []
        · subst hnames
          exact ⟨name, b, hb, .inl hP⟩
        · rw [at?_cons hnames] at hb
          obtain ⟨parent, hparent, hb⟩ := Option.bind_eq_some_iff.1 hb
          exact ⟨name, parent, hparent, .inr ⟨names, b, hb, hP⟩⟩
  · rintro ⟨name, b, hb, hP | ⟨names, n, hn, hP⟩⟩
    · exact ⟨[name], b, hb, hP⟩
    · refine ⟨name :: names, n, ?_, hP⟩
      rw [at?_cons (ne_nil_of_at? hn), hb]
      exact hn

/-- Every block of the first map is in the second one under the same path, and they are related. -/
def EachIn (R : BlockSchema → BlockSchema → Prop) (m m' : BlockMap) : Prop :=
  ∀ path b, m.at? path = some b → ∃ b', m'.at? path = some b' ∧ R b b'

/-- The relation as a recursion: every block is there and related, and so are the blocks nested in
it. -/
theorem eachIn_iff_get? {R : BlockSchema → BlockSchema → Prop} {m m' : BlockMap} :
    EachIn R m m' ↔ ∀ name b, m.get? name = some b →
      ∃ b', m'.get? name = some b' ∧ R b b' ∧ EachIn R b.blocks b'.blocks := by
  constructor
  · intro h name b hb
    obtain ⟨b', hb', hbb'⟩ := h [name] b hb
    refine ⟨b', hb', hbb', fun path n hn => ?_⟩
    have hpath : path ≠ [] := ne_nil_of_at? hn
    obtain ⟨n', hn', hnn'⟩ := h (name :: path) n (by
      rw [at?_cons hpath, hb]
      exact hn)
    rw [at?_cons hpath, show m'.get? name = some b' from hb'] at hn'
    exact ⟨n', hn', hnn'⟩
  · intro h path b hb
    cases path with
    | nil => cases hb
    | cons name path =>
        by_cases hpath : path = []
        · subst hpath
          obtain ⟨b', hb', hbb', -⟩ := h name b hb
          exact ⟨b', hb', hbb'⟩
        · rw [at?_cons hpath, Option.bind_eq_some_iff] at hb
          obtain ⟨parent, hparent, hb⟩ := hb
          obtain ⟨parent', hparent', -, hblocks⟩ := h name parent hparent
          obtain ⟨b', hb', hbb'⟩ := hblocks path b hb
          refine ⟨b', ?_, hbb'⟩
          rw [at?_cons hpath, hparent']
          exact hb'

theorem EachIn.refl {R : BlockSchema → BlockSchema → Prop} (hR : ∀ b, R b b) (m : BlockMap) :
    EachIn R m m := fun _ b hb => ⟨b, hb, hR b⟩

theorem EachIn.trans {R : BlockSchema → BlockSchema → Prop}
    (hR : ∀ b b' b'', R b b' → R b' b'' → R b b'') {m m' m'' : BlockMap} (h : EachIn R m m')
    (h' : EachIn R m' m'') : EachIn R m m'' := by
  intro path b hb
  obtain ⟨b', hb', hbb'⟩ := h path b hb
  obtain ⟨b'', hb'', hb'b''⟩ := h' path b' hb'
  exact ⟨b'', hb'', hR b b' b'' hbb' hb'b''⟩

section Insert

variable {R : BlockSchema → BlockSchema → Prop} {m : BlockMap} {name : String} {b b' : BlockSchema}

/-- The map with a related block in place of the one that was there. -/
theorem EachIn.insert (hR : ∀ b, R b b) (hb : m.get? name = some b) (hbb' : R b b')
    (hblocks : EachIn R b.blocks b'.blocks) : EachIn R m (m.insert name b') := by
  refine eachIn_iff_get?.2 fun key n hn => ?_
  rw [Entries.get?_insert]
  split
  next e =>
    subst e
    cases hb.symm.trans hn
    exact ⟨b', rfl, hbb', hblocks⟩
  next => exact ⟨n, hn, hR n, .refl hR _⟩

/-- The map with a block of a new type. -/
theorem EachIn.insert_new (hR : ∀ b, R b b) (hb : m.get? name = none) (b' : BlockSchema) :
    EachIn R m (m.insert name b') := by
  refine eachIn_iff_get?.2 fun key n hn => ?_
  have hne : name ≠ key := by
    rintro rfl
    cases hb.symm.trans hn
  exact ⟨n, by rw [Entries.get?_insert_of_ne _ hne, hn], hR n, .refl hR _⟩

end Insert

end BlockMap

end ConfigSchema
