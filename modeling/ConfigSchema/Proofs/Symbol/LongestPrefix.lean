import ConfigSchema.Symbol.Table
import Mathlib.Data.List.Infix

/-!
The symbol that a path leads to: the longest one on the way, and the last of those if there were
several. Every symbol stands under its own path, and of each length there is only one path on the
way, so there is at most one longest symbol, and a search for the paths themselves, from the longest
to the empty one, finds it first. Main statement: in a table of inserted symbols it is the first one
that was inserted under the longest path on the way.
-/

namespace ConfigSchema

theorem RefPath.isPrefixOf_iff {p q : RefPath} :
    p.isPrefixOf q = true ↔ p.segments <+: q.segments :=
  List.isPrefixOf_iff_prefix

/-- Of each length there is only one path on the way. -/
theorem RefPath.eq_of_isPrefixOf {p p' q : RefPath} (h : p.isPrefixOf q = true)
    (h' : p'.isPrefixOf q = true) (hlength : p.segments.length = p'.segments.length) : p = p' := by
  obtain ⟨segments⟩ := p
  obtain ⟨segments'⟩ := p'
  rw [isPrefixOf_iff] at h h'
  exact congrArg mk ((List.prefix_of_prefix_length_le h h' hlength.le).eq_of_length hlength)

namespace SymbolTable

variable {t : SymbolTable} {path : RefPath} {s : PublishedSymbol}

theorem mem_onTheWay_iff :
    s ∈ t.onTheWay path ↔ t.get? s.path = some s ∧ s.path.isPrefixOf path = true := by
  rw [onTheWay, List.mem_filter, toList, Entries.mem_values_iff]
  refine and_congr_left' ⟨?_, fun h => ⟨_, h⟩⟩
  rintro ⟨q, hs⟩
  rw [t.keyed q s hs]
  exact hs

theorem resolve_eq_none_iff :
    t.resolve path = none ↔ ∀ q, q.isPrefixOf path = true → t.get? q = none := by
  have hnone : t.resolve path = none ↔ t.onTheWay path = [] := by
    rw [resolve, ← Option.not_isSome_iff_eq_none, List.isSome_maxOn?_iff, not_not,
      List.reverse_eq_nil_iff]
  rw [hnone, List.eq_nil_iff_forall_not_mem]
  constructor
  · intro h q hq
    refine Option.eq_none_iff_forall_not_mem.2 fun s hs => h s ?_
    obtain rfl := t.keyed q s hs
    exact mem_onTheWay_iff.2 ⟨hs, hq⟩
  · intro h s hs
    obtain ⟨hget, honWay⟩ := mem_onTheWay_iff.1 hs
    cases (h s.path honWay).symm.trans hget

/-- The symbol that is found has a path on the way, and no other symbol has a longer one. -/
theorem longest_of_resolve (h : t.resolve path = some s) :
    t.get? s.path = some s ∧ s.path.isPrefixOf path = true ∧
      ∀ q s', t.get? q = some s' → q.isPrefixOf path = true →
        q.segments.length ≤ s.path.segments.length := by
  obtain ⟨hs, honWay⟩ := mem_onTheWay_iff.1 (List.mem_reverse.1 (List.maxOn?_mem h))
  refine ⟨hs, honWay, fun q s' hs' hq => ?_⟩
  obtain rfl := t.keyed q s' hs'
  have hlongest := List.le_apply_maxOn_of_mem (f := fun s => s.path.segments.length)
    (List.mem_reverse.2 (mem_onTheWay_iff.2 ⟨hs', hq⟩))
  rwa [List.maxOn_eq_of_maxOn?_eq_some h] at hlongest

/-- There is at most one longest symbol on the way, so which of several would be taken does not
matter. -/
theorem resolve_eq_some_iff :
    t.resolve path = some s ↔ t.get? s.path = some s ∧ s.path.isPrefixOf path = true ∧
      ∀ q s', t.get? q = some s' → q.isPrefixOf path = true →
        q.segments.length ≤ s.path.segments.length := by
  refine ⟨longest_of_resolve, ?_⟩
  rintro ⟨hs, honWay, hlongest⟩
  cases h : t.resolve path with
  | none => cases (resolve_eq_none_iff.1 h s.path honWay).symm.trans hs
  | some s' =>
      obtain ⟨hs', honWay', hlongest'⟩ := longest_of_resolve h
      have hlength := Nat.le_antisymm (hlongest s'.path s' hs' honWay')
        (hlongest' s.path s hs honWay)
      rw [RefPath.eq_of_isPrefixOf honWay' honWay hlength] at hs'
      exact hs'.symm.trans hs

/-- The longest path on the way to a published path is that path itself. -/
theorem resolve_of_get? (h : t.get? path = some s) : t.resolve path = some s := by
  obtain rfl := t.keyed path s h
  refine resolve_eq_some_iff.2 ⟨h, RefPath.isPrefixOf_iff.2 List.prefix_rfl, fun q _ _ hq => ?_⟩
  exact (RefPath.isPrefixOf_iff.1 hq).length_le

/-- A reference has the type of the symbol at its very path. Without one its type is not known, even
if a shorter path leads to a symbol. -/
theorem valueType_reference (t : SymbolTable) (path : RefPath) :
    t.valueType (.reference path) =
      match t.get? path with
      | some s => s.type
      | none => .dynamic := by
  cases hs : t.get? path with
  | some s => simp [valueType, resolve_of_get? hs, t.keyed path s hs]
  | none =>
      cases hres : t.resolve path with
      | none => simp [valueType, hres]
      | some s =>
          obtain ⟨hget, -⟩ := longest_of_resolve hres
          have hne : s.path ≠ path := by
            rintro rfl
            cases hs.symm.trans hget
          simp [valueType, hres, hne]

section Search

variable {p q : RefPath} {n : Nat}

/-- The first `n` segments of the path, then fewer and fewer, down to none. -/
def shorterPaths (path : RefPath) : Nat → List RefPath
  | 0 => [⟨[]⟩]
  | n + 1 => ⟨path.segments.take (n + 1)⟩ :: shorterPaths path n

theorem mem_shorterPaths_iff :
    q ∈ shorterPaths p n ↔ q.isPrefixOf p = true ∧ q.segments.length ≤ n := by
  obtain ⟨segments⟩ := q
  rw [RefPath.isPrefixOf_iff]
  induction n with
  | zero => simp +contextual [shorterPaths]
  | succ n ih =>
      rw [shorterPaths, List.mem_cons, ih, RefPath.mk.injEq]
      constructor
      · rintro (rfl | ⟨honWay, hle⟩)
        · exact ⟨List.take_prefix _ _, List.length_take_le _ _⟩
        · exact ⟨honWay, Nat.le_succ_of_le hle⟩
      · rintro ⟨honWay, hle⟩
        rcases Nat.le_succ_iff.1 hle with hle | hlength
        · exact .inr ⟨honWay, hle⟩
        · have hsegments : segments = p.segments.take segments.length :=
            List.prefix_iff_eq_take.1 honWay
          exact .inl (hsegments.trans (congrArg p.segments.take hlength))

theorem mem_shorterPaths_length_iff :
    q ∈ shorterPaths p p.segments.length ↔ q.isPrefixOf p = true :=
  mem_shorterPaths_iff.trans
    (and_iff_left_of_imp fun hq => (RefPath.isPrefixOf_iff.1 hq).length_le)

/-- The paths on the way get shorter and shorter. -/
theorem pairwise_shorterPaths (p : RefPath) (n : Nat) :
    (shorterPaths p n).Pairwise fun q q' => q'.segments.length ≤ q.segments.length := by
  induction n with
  | zero => exact List.pairwise_singleton _ _
  | succ n ih =>
      refine List.pairwise_cons.2 ⟨fun q hq => ?_, ih⟩
      obtain ⟨honWay, hle⟩ := mem_shorterPaths_iff.1 hq
      have hlength := (RefPath.isPrefixOf_iff.1 honWay).length_le
      rw [List.length_take]
      omega

/-- The first path on the way under which there is a symbol is the longest. -/
theorem longest_of_findSome?_shorterPaths
    (h : (shorterPaths path path.segments.length).findSome? t.get? = some s) :
    t.get? s.path = some s ∧ s.path.isPrefixOf path = true ∧
      ∀ q s', t.get? q = some s' → q.isPrefixOf path = true →
        q.segments.length ≤ s.path.segments.length := by
  obtain ⟨longer, q, shorter, hsplit, hs, hlonger⟩ := List.findSome?_eq_some_iff.1 h
  obtain rfl := t.keyed q s hs
  have hordered := pairwise_shorterPaths path path.segments.length
  rw [hsplit, List.pairwise_append, List.pairwise_cons] at hordered
  obtain ⟨-, ⟨hshorter, -⟩, -⟩ := hordered
  refine ⟨hs, mem_shorterPaths_length_iff.1 (hsplit ▸ by simp), fun q s' hs' hq => ?_⟩
  rw [← mem_shorterPaths_length_iff, hsplit, List.mem_append, List.mem_cons] at hq
  rcases hq with hq | rfl | hq
  · cases (hlonger q hq).symm.trans hs'
  · exact Nat.le_refl _
  · exact hshorter q hq

/-- The search for the paths on the way, the longest first, finds the same symbol. -/
theorem resolve_eq_findSome? (t : SymbolTable) (path : RefPath) :
    t.resolve path = (shorterPaths path path.segments.length).findSome? t.get? := by
  cases h : (shorterPaths path path.segments.length).findSome? t.get? with
  | none =>
      rw [List.findSome?_eq_none_iff] at h
      exact resolve_eq_none_iff.2 fun q hq => h q (mem_shorterPaths_length_iff.2 hq)
  | some s => exact resolve_eq_some_iff.2 (longest_of_findSome?_shorterPaths h)

end Search

theorem get?_insert (t : SymbolTable) (s : PublishedSymbol) (path : RefPath) :
    (t.insert s).get? path = (t.get? path).or (if s.path = path then some s else none) := by
  unfold insert Entries.contains
  cases ht : t.symbols.get? s.path with
  | some s' =>
    by_cases h : s.path = path
    · subst h
      simp [get?, ht]
    · simp [h]
  | none =>
    by_cases h : s.path = path
    · subst h
      simp [get?, ht]
    · simp [get?, Entries.get?_insert, h]

/-- The table with some symbols, inserted one after another. -/
def ofList (ss : List PublishedSymbol) : SymbolTable := ss.foldl insert empty

theorem get?_foldl_insert (t : SymbolTable) (ss : List PublishedSymbol) (path : RefPath) :
    (ss.foldl insert t).get? path = (t.get? path).or (ss.find? fun s => s.path = path) := by
  induction ss generalizing t with
  | nil => simp
  | cons s ss ih =>
      rw [List.foldl_cons, ih, get?_insert, Option.or_assoc, List.find?_cons]
      by_cases h : s.path = path <;> simp [h]

theorem get?_ofList (ss : List PublishedSymbol) (path : RefPath) :
    (ofList ss).get? path = ss.find? fun s => s.path = path :=
  get?_foldl_insert empty ss path

/-- The symbol is the first of the listed ones under the longest path on the way to the given
one. -/
structure IsFirstUnderLongest (ss : List PublishedSymbol) (path : RefPath) (s : PublishedSymbol) :
    Prop where
  onTheWay : s.path.isPrefixOf path = true
  longest : ∀ s' ∈ ss, s'.path.isPrefixOf path = true →
    s'.path.segments.length ≤ s.path.segments.length
  first : ∃ before after, ss = before ++ s :: after ∧ ∀ s' ∈ before, s'.path ≠ s.path

section Inserted

variable {ss : List PublishedSymbol}

theorem get?_ofList_self_iff : (ofList ss).get? s.path = some s ↔
    ∃ before after, ss = before ++ s :: after ∧ ∀ s' ∈ before, s'.path ≠ s.path := by
  simp [get?_ofList, List.find?_eq_some_iff_append]

/-- A path is taken just when a symbol was inserted under it. -/
theorem exists_get?_ofList_iff {q : RefPath} :
    (∃ s, (ofList ss).get? q = some s) ↔ ∃ s ∈ ss, s.path = q := by
  rw [← Option.isSome_iff_exists, get?_ofList, List.find?_isSome]
  simp

theorem resolve_ofList_eq_none_iff : (ofList ss).resolve path = none ↔
    ∀ s ∈ ss, s.path.isPrefixOf path = false := by
  rw [resolve_eq_none_iff]
  constructor
  · intro h s hs
    obtain ⟨s', hs'⟩ := exists_get?_ofList_iff.2 ⟨s, hs, rfl⟩
    refine Bool.eq_false_iff.2 fun honWay => ?_
    cases (h s.path honWay).symm.trans hs'
  · intro h q hq
    refine Option.eq_none_iff_forall_not_mem.2 fun s hs => ?_
    obtain ⟨s', hs', rfl⟩ := exists_get?_ofList_iff.1 ⟨s, hs⟩
    cases (h s' hs').symm.trans hq

theorem resolve_ofList_eq_some_iff :
    (ofList ss).resolve path = some s ↔ IsFirstUnderLongest ss path s := by
  rw [resolve_eq_some_iff, get?_ofList_self_iff]
  constructor
  · rintro ⟨hfirst, honWay, hlongest⟩
    refine ⟨honWay, fun s' hs' honWay' => ?_, hfirst⟩
    obtain ⟨s'', hs''⟩ := exists_get?_ofList_iff.2 ⟨s', hs', rfl⟩
    exact hlongest s'.path s'' hs'' honWay'
  · rintro ⟨honWay, hlongest, hfirst⟩
    refine ⟨hfirst, honWay, fun q s' hs' honWay' => ?_⟩
    obtain ⟨s'', hs'', rfl⟩ := exists_get?_ofList_iff.1 ⟨s', hs'⟩
    exact hlongest s'' hs'' honWay'

end Inserted

/-- In a table of inserted symbols a path leads to none just when no inserted path is on the way,
and otherwise to the first symbol under the longest one. The reference is then one into the scope of
the symbol. It has the type of the symbol if it ends there, and beyond that the type is unknown. -/
theorem resolve_ofList (ss : List PublishedSymbol) (path : RefPath) :
    ((ofList ss).resolve path = none ↔ ∀ s ∈ ss, s.path.isPrefixOf path = false) ∧
      (∀ s, (ofList ss).resolve path = some s ↔ IsFirstUnderLongest ss path s) ∧
      ∀ s, IsFirstUnderLongest ss path s →
        (s.path = path → (ofList ss).candidateFor path = .traversal (some s.scope) s.type) ∧
        (s.path.segments.length < path.segments.length →
          (ofList ss).candidateFor path = .traversal (some s.scope) .dynamic) := by
  refine ⟨resolve_ofList_eq_none_iff, fun s => resolve_ofList_eq_some_iff, fun s hs => ?_⟩
  have hresolve := resolve_ofList_eq_some_iff.2 hs
  refine ⟨fun hend => ?_, fun hbeyond => ?_⟩
  · rw [candidateFor, hresolve]
    simp [hend]
  · have hne : s.path ≠ path := by
      rintro rfl
      exact Nat.lt_irrefl _ hbeyond
    rw [candidateFor, hresolve]
    simp [hne]

/-- A module, its subnet, and another subnet under the same path. -/
def subnets : List PublishedSymbol :=
  [⟨.moduleCall, ⟨["module", "vpc"]⟩, .dynamic, "module"⟩,
    ⟨.outputValue, ⟨["module", "vpc", "subnet"]⟩, .string, "output"⟩,
    ⟨.outputValue, ⟨["module", "vpc", "subnet"]⟩, .number, "output"⟩]

theorem resolve_ofList_subnets :
    IsFirstUnderLongest subnets ⟨["module", "vpc", "subnet", "id"]⟩
        ⟨.outputValue, ⟨["module", "vpc", "subnet"]⟩, .string, "output"⟩ ∧
      (ofList subnets).candidateFor ⟨["module", "vpc", "subnet", "id"]⟩ =
        .traversal (some .outputValue) .dynamic ∧
      (ofList subnets).resolve ⟨["module"]⟩ = none := by
  have hfirst : IsFirstUnderLongest subnets ⟨["module", "vpc", "subnet", "id"]⟩
      ⟨.outputValue, ⟨["module", "vpc", "subnet"]⟩, .string, "output"⟩ :=
    ⟨by decide, by decide, [_], [_], rfl, by decide⟩
  obtain ⟨-, -, hcandidate⟩ := resolve_ofList subnets ⟨["module", "vpc", "subnet", "id"]⟩
  obtain ⟨hnone, -, -⟩ := resolve_ofList subnets ⟨["module"]⟩
  exact ⟨hfirst, (hcandidate _ hfirst).2 (by decide), hnone.2 (by decide)⟩

end SymbolTable

end ConfigSchema
