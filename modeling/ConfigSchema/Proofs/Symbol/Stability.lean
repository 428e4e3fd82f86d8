import ConfigSchema.Proofs.Symbol.Accounting

/-!
Tables of documents that differ in a few blocks or in their order. Main statements: blocks that come
at the end of a document leave every symbol as it is, except that an unknown type may become known,
and as long as no path is published twice, the order of the blocks plays no part.
-/

namespace ConfigSchema

/-- The second symbol is the first one, but its type may be known where that of the first is not. -/
structure PublishedSymbol.RefinedTo (s s' : PublishedSymbol) : Prop where
  path : s'.path = s.path
  scope : s'.scope = s.scope
  blockType : s'.blockType = s.blockType
  type : s.type = .dynamic ∨ s'.type = s.type

/-- Every symbol of the first table is in the second one under its path, refined, and what the first
table lists comes first in the list of the second one. -/
structure SymbolTable.RefinedTo (t t' : SymbolTable) : Prop where
  symbols : ∀ path s, t.get? path = some s → ∃ s', t'.get? path = some s' ∧ s.RefinedTo s'
  skipped : t.skipped <+: t'.skipped

namespace Publication

variable {ps qs : List Publication} {path target : RefPath} {n : Nat}

theorem ofDocument_append (tree : SchemaTree) (bs later : List BlockInstance) :
    ofDocument tree (bs ++ later) = ofDocument tree bs ++ ofDocument tree later :=
  List.flatMap_append

section Append

/-- Later publications do not come first under a path that has one already. -/
theorem firstAt_append {p : Publication} (h : firstAt ps path = some p) (qs : List Publication) :
    firstAt (ps ++ qs) path = some p := by
  rw [firstAt] at h
  rw [firstAt, List.find?_append, h, Option.some_or]

theorem Refers.append (h : Refers ps path target) (qs : List Publication) :
    Refers (ps ++ qs) path target := by
  obtain ⟨p, hp, hs⟩ := h
  exact ⟨p, firstAt_append hp qs, hs⟩

/-- A chain that leads to a known type stays as it is. Only at paths without a symbol, or with
nothing known about the type, can later publications make a difference. -/
theorem typeAfter_append (h : typeAfter ps n path ≠ .dynamic) (qs : List Publication) :
    typeAfter (ps ++ qs) n path = typeAfter ps n path := by
  induction n generalizing path with
  | zero => exact absurd rfl h
  | succ n ih =>
      rcases unregistered_or_known_or_refers ps path with hp | ⟨p, type, hp, hs⟩ | ⟨target, ht⟩
      · exact absurd (typeAfter_of_unregistered hp) h
      · rw [typeAfter_of_known hp hs, typeAfter_of_known (firstAt_append hp qs) hs]
      · rw [typeAfter_of_refers ht] at h
        rw [typeAfter_of_refers ht, typeAfter_of_refers (ht.append qs)]
        exact ih h

end Append

/-- No path is published twice in the document. -/
def PublishesOnce (tree : SchemaTree) (bs : List BlockInstance) : Prop :=
  ((ofDocument tree bs).filterMap path?).Nodup

instance (tree : SchemaTree) (bs : List BlockInstance) : Decidable (PublishesOnce tree bs) :=
  inferInstanceAs (Decidable (List.Nodup _))

section Permutation

/-- Without double paths the first publication under a path is the only one there. -/
theorem firstAt_eq_some_iff (h : (ps.filterMap path?).Nodup) {p : Publication} :
    firstAt ps path = some p ↔ p ∈ ps ∧ p.path? = some path := by
  constructor
  · intro hp
    exact ⟨List.mem_of_find?_eq_some hp, by simpa using List.find?_some hp⟩
  · rintro ⟨hmem, hpath⟩
    have hsome : (firstAt ps path).isSome := by
      rw [firstAt, List.find?_isSome]
      exact ⟨p, hmem, by simpa using hpath⟩
    obtain ⟨first, hfirst⟩ := Option.isSome_iff_exists.1 hsome
    obtain ⟨hfpath, before, after, hsplit, hbefore⟩ := List.find?_eq_some_iff_append.1 hfirst
    rw [hfirst]
    have hapart := List.pairwise_filterMap.1 h
    rw [hsplit, List.pairwise_append, List.pairwise_cons] at hapart
    obtain ⟨-, ⟨hafter, -⟩, -⟩ := hapart
    rw [hsplit, List.mem_append, List.mem_cons] at hmem
    rcases hmem with hp | rfl | hp
    · simpa [hpath] using hbefore p hp
    · rfl
    · exact absurd rfl (hafter p hp path (by simpa using hfpath) path hpath)

theorem firstAt_perm (h : ps.Perm qs) (honce : (ps.filterMap path?).Nodup) (path : RefPath) :
    firstAt ps path = firstAt qs path := by
  have honce' : (qs.filterMap path?).Nodup := (h.filterMap path?).nodup_iff.1 honce
  refine Option.ext fun p => ?_
  rw [firstAt_eq_some_iff honce, firstAt_eq_some_iff honce', h.mem_iff]

/-- The types depend on nothing but the first publications under the paths. -/
theorem typeAfter_congr (h : ∀ path, firstAt ps path = firstAt qs path) (n : Nat) :
    typeAfter ps n = typeAfter qs n := by
  induction n with
  | zero => rfl
  | succ n ih =>
      funext path
      simp only [typeAfter, h path, ih]

end Permutation

end Publication

namespace SymbolTable

open Publication

/-- The table of a document is refined by that of any document that goes on after it. -/
theorem refinedTo_collect_append (tree : SchemaTree) (bs later : List BlockInstance) :
    (collect tree bs).RefinedTo (collect tree (bs ++ later)) where
  symbols path s hs := by
    have happend := ofDocument_append tree bs later
    -- both tables are read after the same number of passes, enough for either of them
    let n := max (pass (ofDocument tree bs) empty).size
      (pass (ofDocument tree (bs ++ later)) empty).size
    rw [get?_collect tree bs (n := n) (Nat.le_max_left _ _), Option.map_eq_some_iff] at hs
    obtain ⟨p, hp, rfl⟩ := hs
    have hp' : firstAt (ofDocument tree (bs ++ later)) path = some p := by
      rw [happend]
      exact firstAt_append hp _
    have hs' := get?_collect tree (bs ++ later) (n := n) (Nat.le_max_right _ _) path
    rw [hp', Option.map_some] at hs'
    refine ⟨_, hs', rfl, rfl, rfl, ?_⟩
    by_cases hknown : typeAfter (ofDocument tree bs) n path = .dynamic
    · exact .inl hknown
    · right
      rw [happend]
      exact typeAfter_append hknown _
  skipped := by
    rw [skipped_collect, skipped_collect, ofDocument_append, List.filterMap_append]
    exact List.prefix_append _ _

/-- Outputs that are published under their names, with the types of their values. -/
def outputs : SchemaTree :=
  SchemaTree.empty.withBlock "output" ((BlockSchema.bare.withLabel
    (.plain "name" (.plainText "Output Name"))).withReference
      ((Reference.addressed .outputValue [.fixed "output", .label 0]).withRule
        (.inferredFrom (some "value"))))

/-- An output with a value. -/
def output (name : String) (value : AttributeValue) : BlockInstance :=
  ((BlockInstance.bare "output").withLabel name).withAttribute "value" value

/-- The type of an output becomes known when the one that it refers to is added. -/
example :
    let id := output "id" (.reference ⟨["output", "region"]⟩)
    let region := output "region" (.literal (.bool true))
    ((collect outputs [id]).get? ⟨["output", "id"]⟩).map (·.type) = some .dynamic ∧
      ((collect outputs [id, region]).get? ⟨["output", "id"]⟩).map (·.type) = some .bool := by
  decide +kernel

/-- A document in which no path is published twice has the same symbols in every order of its blocks,
and the same publications without a path are listed. -/
theorem collect_perm {tree : SchemaTree} {bs bs' : List BlockInstance} (h : bs.Perm bs')
    (honce : PublishesOnce tree bs) :
    (collect tree bs).symbols = (collect tree bs').symbols ∧
      (collect tree bs).skipped.Perm (collect tree bs').skipped := by
  have hperm : (ofDocument tree bs).Perm (ofDocument tree bs') := h.flatMap_right (ofBlock tree)
  have hfirst := firstAt_perm hperm honce
  constructor
  · refine Entries.ext_get? fun path => ?_
    let n := max (pass (ofDocument tree bs) empty).size (pass (ofDocument tree bs') empty).size
    have hold := get?_collect tree bs (n := n) (Nat.le_max_left _ _) path
    have hnew := get?_collect tree bs' (n := n) (Nat.le_max_right _ _) path
    rw [hfirst, typeAfter_congr hfirst, ← hnew] at hold
    exact hold
  · rw [skipped_collect, skipped_collect]
    exact hperm.filterMap skipped?

/-- A chain of outputs, and two outputs without a path. -/
def chainedOutputs : List BlockInstance :=
  [output "id" (.reference ⟨["output", "name"]⟩), BlockInstance.bare "output",
    output "name" (.reference ⟨["output", "region"]⟩), output "my.zone" .computed,
    output "region" (.literal (.bool true))]

/-- Read backwards, every reference of the chain comes after the output that it refers to. -/
theorem collect_perm_chainedOutputs :
    chainedOutputs.Perm chainedOutputs.reverse ∧ PublishesOnce outputs chainedOutputs ∧
      (collect outputs chainedOutputs).symbols =
        (collect outputs chainedOutputs.reverse).symbols ∧
      (collect outputs chainedOutputs).skipped.Perm
        (collect outputs chainedOutputs.reverse).skipped := by
  have hperm : chainedOutputs.Perm chainedOutputs.reverse := (List.reverse_perm _).symm
  have honce : PublishesOnce outputs chainedOutputs := by decide
  exact ⟨hperm, honce, collect_perm hperm honce⟩

end SymbolTable

end ConfigSchema
