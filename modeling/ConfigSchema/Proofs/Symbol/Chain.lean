import ConfigSchema.Proofs.Symbol.Pass
import Mathlib.Data.List.Duplicate
import Mathlib.Data.List.Perm.Subperm
import Mathlib.Logic.Relation

/-!
Chains of references between symbols, and the passes that follow them. The type of a symbol is the
one at the end of its chain. After `n` passes a type is known if its chain has at most `n` links; a
chain with more links than there are symbols runs into a cycle, whose types are never known. So the
passes that the collection of symbols allows always suffice.
-/

namespace ConfigSchema

namespace Publication

/-- The type of the symbol at a path is that of the symbol at the target. -/
def Refers (ps : List Publication) (path target : RefPath) : Prop :=
  ∃ p, firstAt ps path = some p ∧ p.typeSource = .symbolAt target

/-- The type at the end of the chain of references that starts at a path. -/
inductive ChainType (ps : List Publication) : RefPath → ValueType → Prop
  /-- The chain ends where a publication alone gives the type. -/
  | known {path : RefPath} {p : Publication} {type : ValueType} (hp : firstAt ps path = some p)
      (h : p.typeSource = .known type) : ChainType ps path type
  | next {path target : RefPath} {type : ValueType} (h : Refers ps path target)
      (ht : ChainType ps target type) : ChainType ps path type
  /-- The chain leads to a path without a symbol. -/
  | unregistered {path target : RefPath} (h : Refers ps path target)
      (ht : firstAt ps target = none) : ChainType ps path .dynamic
  /-- The chain comes back to where it starts. -/
  | cyclic {path : RefPath} (h : Relation.TransGen (Refers ps) path path) :
      ChainType ps path .dynamic

/-- The type of a symbol as far as `n` passes follow its chain. -/
def typeAfter (ps : List Publication) : Nat → RefPath → ValueType
  | 0, _ => .dynamic
  | n + 1, path =>
    match firstAt ps path with
    | some p => p.typeSource.type (typeAfter ps n)
    | none => .dynamic

/-- The chain from a path has at most `n` links. -/
def EndsWithin (ps : List Publication) : Nat → RefPath → Prop
  | 0, path => firstAt ps path = none
  | n + 1, path => ∀ target, Refers ps path target → EndsWithin ps n target

variable {ps : List Publication} {path target : RefPath} {n : Nat}

theorem Refers.registered (h : Refers ps path target) : firstAt ps path ≠ none := by
  obtain ⟨p, hp, -⟩ := h
  simp [hp]

/-- A path is without a symbol, at the end of its chain, or followed by another path. -/
theorem unregistered_or_known_or_refers (ps : List Publication) (path : RefPath) :
    firstAt ps path = none ∨
      (∃ p type, firstAt ps path = some p ∧ p.typeSource = .known type) ∨
      ∃ target, Refers ps path target := by
  cases hp : firstAt ps path with
  | none => exact .inl rfl
  | some p =>
    cases hs : p.typeSource with
    | known type => exact .inr (.inl ⟨p, type, rfl, hs⟩)
    | symbolAt target => exact .inr (.inr ⟨target, p, hp, hs⟩)

theorem typeAfter_of_unregistered (h : firstAt ps path = none) :
    typeAfter ps n path = .dynamic := by
  cases n with
  | zero => rfl
  | succ n => simp [typeAfter, h]

theorem typeAfter_of_known {p : Publication} {type : ValueType} (hp : firstAt ps path = some p)
    (hs : p.typeSource = .known type) : typeAfter ps (n + 1) path = type := by
  simp [typeAfter, hp, hs, TypeSource.type]

theorem typeAfter_of_refers (h : Refers ps path target) :
    typeAfter ps (n + 1) path = typeAfter ps n target := by
  obtain ⟨p, hp, hs⟩ := h
  simp [typeAfter, hp, hs, TypeSource.type]

/-- Once a chain is followed to its end, the type stays. -/
theorem typeAfter_add_of_endsWithin (h : EndsWithin ps n path) (d : Nat) :
    typeAfter ps (d + n) path = typeAfter ps n path := by
  induction n generalizing path with
  | zero => rw [typeAfter_of_unregistered h, typeAfter_of_unregistered h]
  | succ n ih =>
    rw [← Nat.add_assoc]
    rcases unregistered_or_known_or_refers ps path with hp | ⟨p, type, hp, hs⟩ | ⟨target, ht⟩
    · rw [typeAfter_of_unregistered hp, typeAfter_of_unregistered hp]
    · rw [typeAfter_of_known hp hs, typeAfter_of_known hp hs]
    · rw [typeAfter_of_refers ht, typeAfter_of_refers ht]
      exact ih (h target ht)

/-- Nothing is known in the middle of a chain. -/
theorem typeAfter_of_not_endsWithin (h : ¬EndsWithin ps n path) :
    typeAfter ps n path = .dynamic := by
  induction n generalizing path with
  | zero => rfl
  | succ n ih =>
    simp only [EndsWithin, not_forall] at h
    obtain ⟨target, ht, h⟩ := h
    rw [typeAfter_of_refers ht]
    exact ih h

theorem chainType_of_endsWithin (h : EndsWithin ps n path) (hp : firstAt ps path ≠ none) :
    ChainType ps path (typeAfter ps n path) := by
  induction n generalizing path with
  | zero => exact absurd h hp
  | succ n ih =>
    rcases unregistered_or_known_or_refers ps path with hn | ⟨p, type, hp, hs⟩ | ⟨target, ht⟩
    · exact absurd hn hp
    · rw [typeAfter_of_known hp hs]
      exact .known hp hs
    · rw [typeAfter_of_refers ht]
      by_cases hreg : firstAt ps target = none
      · rw [typeAfter_of_unregistered hreg]
        exact .unregistered ht hreg
      · exact .next ht (ih (h target ht) hreg)

/-- A chain with more than `n` links, link by link. -/
theorem exists_isChain_of_not_endsWithin (h : ¬EndsWithin ps n path) :
    ∃ l, l.length = n ∧ List.IsChain (Refers ps) (path :: l) ∧
      ∀ q ∈ path :: l, firstAt ps q ≠ none := by
  induction n generalizing path with
  | zero => exact ⟨[], rfl, .singleton path, by simpa [EndsWithin] using h⟩
  | succ n ih =>
    simp only [EndsWithin, not_forall] at h
    obtain ⟨target, ht, h⟩ := h
    obtain ⟨l, hl, hchain, hreg⟩ := ih h
    refine ⟨target :: l, by simp [hl], List.isChain_cons_cons.2 ⟨ht, hchain⟩, ?_⟩
    intro q hq
    rcases List.mem_cons.1 hq with rfl | hq
    · exact ht.registered
    · exact hreg q hq

/-- A chain that lists a path twice leads into a cycle. -/
theorem exists_cycle_of_not_nodup {l : List RefPath} (hchain : List.IsChain (Refers ps) (path :: l))
    (h : ¬(path :: l).Nodup) :
    ∃ q, Relation.ReflTransGen (Refers ps) path q ∧ Relation.TransGen (Refers ps) q q := by
  have hpair : (path :: l).Pairwise (Relation.TransGen (Refers ps)) :=
    (hchain.imp fun _ _ => Relation.TransGen.single).pairwise
  obtain ⟨q, hq⟩ := List.exists_duplicate_iff_not_nodup.2 h
  have hcycle : Relation.TransGen (Refers ps) q q :=
    List.rel_of_pairwise_cons (hpair.sublist (List.duplicate_iff_sublist.1 hq)) List.mem_cons_self
  refine ⟨q, ?_, hcycle⟩
  rcases List.mem_cons.1 hq.mem with rfl | hmem
  · exact .refl
  · exact (List.rel_of_pairwise_cons hpair hmem).to_reflTransGen

theorem not_endsWithin_of_cycle (h : Relation.TransGen (Refers ps) path path) :
    ¬EndsWithin ps n path := by
  induction n generalizing path with
  | zero =>
    obtain ⟨target, ht, -⟩ := Relation.TransGen.head'_iff.1 h
    exact ht.registered
  | succ n ih =>
    obtain ⟨target, ht, hrest⟩ := Relation.TransGen.head'_iff.1 h
    exact fun hends => ih (Relation.TransGen.tail' hrest ht) (hends target ht)

theorem not_endsWithin_of_reaches (h : Relation.ReflTransGen (Refers ps) path target)
    (ht : ∀ n, ¬EndsWithin ps n target) : ¬EndsWithin ps n path := by
  induction h using Relation.ReflTransGen.head_induction_on generalizing n with
  | refl => exact ht n
  | head hstep _ ih =>
    cases n with
    | zero => exact hstep.registered
    | succ n => exact fun hends => ih (hends _ hstep)

theorem chainType_of_reaches {type : ValueType} (h : Relation.ReflTransGen (Refers ps) path target)
    (ht : ChainType ps target type) : ChainType ps path type := by
  induction h using Relation.ReflTransGen.head_induction_on with
  | refl => exact ht
  | head hstep _ ih => exact .next hstep ih

end Publication

namespace SymbolTable

open Publication

/-- The table after `n` passes. -/
def passes (ps : List Publication) : Nat → SymbolTable
  | 0 => empty
  | n + 1 => pass ps (passes ps n)

variable {ps : List Publication} {path : RefPath} {k m n : Nat}

/-- `n` passes follow each chain by `n` links. -/
theorem valueType_passes (ps : List Publication) (n : Nat) (path : RefPath) :
    (passes ps n).valueType (.reference path) = typeAfter ps n path := by
  induction n generalizing path with
  | zero => exact valueType_reference empty path
  | succ n ih =>
    rw [passes, valueType_pass]
    simp only [ih]
    rfl

/-- A list of different paths with symbols is no longer than the table. -/
theorem length_le_size {l : List RefPath} (hl : l.Nodup) (hreg : ∀ q ∈ l, firstAt ps q ≠ none)
    (known : SymbolTable) : l.length ≤ (pass ps known).size := by
  have hsub : l ⊆ (pass ps known).symbols.keys := by
    intro q hq
    obtain ⟨p, hp⟩ := Option.ne_none_iff_exists'.1 (hreg q hq)
    refine Entries.mem_keys_iff.2 ⟨p.symbol known q, ?_⟩
    have hget := get?_pass ps known q
    rw [hp] at hget
    exact hget
  have hle := (List.subperm_of_subset hl hsub).length_le
  rwa [Entries.keys_eq_map_toList, List.length_map, ← Entries.size_eq_length_toList] at hle

/-- Each chain has at most as many links as there are symbols, or it never ends. -/
theorem endsWithin_size_or_cycle (ps : List Publication) (path : RefPath) :
    EndsWithin ps (pass ps empty).size path ∨
      ((∀ n, ¬EndsWithin ps n path) ∧ ChainType ps path .dynamic) := by
  by_cases h : EndsWithin ps (pass ps empty).size path
  · exact .inl h
  · right
    -- with its first path the chain lists one path more than there are symbols
    obtain ⟨l, hl, hchain, hreg⟩ := exists_isChain_of_not_endsWithin h
    have hdup : ¬(path :: l).Nodup := by
      intro hnodup
      have hle := length_le_size hnodup hreg empty
      rw [List.length_cons] at hle
      omega
    obtain ⟨q, hq, hcycle⟩ := exists_cycle_of_not_nodup hchain hdup
    exact ⟨fun n => not_endsWithin_of_reaches hq fun m => not_endsWithin_of_cycle hcycle,
      chainType_of_reaches hq (.cyclic hcycle)⟩

/-- As many passes as there are symbols follow every chain as far as it goes. -/
theorem typeAfter_of_size_le (hn : (pass ps empty).size ≤ n) (path : RefPath) :
    typeAfter ps n path = typeAfter ps (pass ps empty).size path := by
  obtain ⟨d, rfl⟩ := Nat.exists_eq_add_of_le' hn
  rcases endsWithin_size_or_cycle ps path with h | ⟨h, -⟩
  · exact typeAfter_add_of_endsWithin h d
  · rw [typeAfter_of_not_endsWithin (h _), typeAfter_of_not_endsWithin (h _)]

/-- A chain has no other type than the one that all passes from some point on find. -/
theorem exists_typeAfter_of_chainType {type : ValueType} (h : ChainType ps path type) :
    ∃ m, ∀ d, typeAfter ps (d + m) path = type := by
  induction h with
  | known hp hs => exact ⟨1, fun d => typeAfter_of_known hp hs⟩
  | next h _ ih =>
    obtain ⟨m, hm⟩ := ih
    refine ⟨m + 1, fun d => ?_⟩
    rw [← Nat.add_assoc, typeAfter_of_refers h]
    exact hm d
  | unregistered h ht =>
    refine ⟨1, fun d => ?_⟩
    rw [typeAfter_of_refers h, typeAfter_of_unregistered ht]
  | cyclic h => exact ⟨0, fun d => typeAfter_of_not_endsWithin (not_endsWithin_of_cycle h)⟩

/-- The types at the ends of the chains are those that enough passes find. -/
theorem chainType_iff (hn : (pass ps empty).size ≤ n) (hp : firstAt ps path ≠ none)
    {type : ValueType} : ChainType ps path type ↔ type = typeAfter ps n path := by
  rw [typeAfter_of_size_le hn]
  constructor
  · intro h
    obtain ⟨m, hm⟩ := exists_typeAfter_of_chainType h
    rw [← hm (pass ps empty).size]
    exact typeAfter_of_size_le (Nat.le_add_right _ _) path
  · rintro rfl
    rcases endsWithin_size_or_cycle ps path with h | ⟨h, hcycle⟩
    · exact chainType_of_endsWithin h hp
    · rwa [typeAfter_of_not_endsWithin (h _)]

/-- The table stays the same after one pass more than there are symbols. -/
theorem passes_succ_eq (hn : (pass ps empty).size ≤ n) :
    passes ps (n + 2) = passes ps (n + 1) := by
  refine pass_congr fun path => ?_
  rw [valueType_passes, valueType_passes, typeAfter_of_size_le hn,
    typeAfter_of_size_le (Nat.le_succ_of_le hn)]

theorem passes_add_of_fixed (h : passes ps (k + 1) = passes ps k) (d : Nat) :
    passes ps (k + d) = passes ps k := by
  induction d with
  | zero => rfl
  | succ d ih => rw [← Nat.add_assoc, passes, ih, ← passes, h]

/-- Settling arrives at the table of a pass that changes nothing, if it may make the passes up to
that one. -/
theorem settle_passes (hfixed : passes ps (m + 1) = passes ps m) (hk : k ≤ m) (hn : m ≤ k + n) :
    settle ps n (passes ps k) = passes ps m := by
  induction n generalizing k with
  | zero =>
    obtain rfl : k = m := by omega
    rfl
  | succ n ih =>
    rw [settle, ← passes]
    split
    next h =>
      obtain ⟨d, rfl⟩ := Nat.exists_eq_add_of_le hk
      exact (passes_add_of_fixed h d).symm
    next h =>
      have hne : k ≠ m := by
        rintro rfl
        exact h hfixed
      exact ih (by omega) (by omega)

theorem collect_eq_passes (tree : SchemaTree) (bs : List BlockInstance) :
    collect tree bs = passes (ofDocument tree bs) ((pass (ofDocument tree bs) empty).size + 1) :=
  settle_passes (k := 1) (passes_succ_eq (Nat.le_refl _)) (by omega) (by omega)

/-- The collected symbols, with the types as far as enough passes follow the chains. -/
theorem get?_collect (tree : SchemaTree) (bs : List BlockInstance)
    (hn : (pass (ofDocument tree bs) empty).size ≤ n) (path : RefPath) :
    (collect tree bs).get? path = (firstAt (ofDocument tree bs) path).map fun p =>
      ⟨p.reference.scope, path, typeAfter (ofDocument tree bs) n path, p.block.blockType⟩ := by
  rw [collect_eq_passes, passes, get?_pass, typeAfter_of_size_le hn,
    ← typeAfter_of_size_le (Nat.le_succ _)]
  cases hp : firstAt (ofDocument tree bs) path with
  | none => rfl
  | some p =>
    rw [Option.map_some, Option.map_some, symbol, type_eq]
    simp only [valueType_passes, typeAfter, hp]

/-- The collected table is one that another pass does not change. Each path with a publication has
the symbol of the first one, under the type at the end of its chain, of which there is exactly one;
other paths have no symbol. -/
theorem collect_follows_chains (tree : SchemaTree) (bs : List BlockInstance) :
    let ps := ofDocument tree bs
    let t := collect tree bs
    pass ps t = t ∧
      ∀ path,
        match firstAt ps path with
        | none => t.get? path = none
        | some p => ∃ type,
            t.get? path = some ⟨p.reference.scope, path, type, p.block.blockType⟩ ∧
              ∀ type', ChainType ps path type' ↔ type' = type := by
  intro ps t
  have ht : t = passes ps ((pass ps empty).size + 1) := collect_eq_passes tree bs
  refine ⟨?_, fun path => ?_⟩
  · rw [ht]
    exact passes_succ_eq (Nat.le_refl _)
  · have hget : t.get? path =
        (firstAt ps path).map (symbol (passes ps (pass ps empty).size) path) := by
      rw [ht]
      exact get?_pass ps _ path
    cases hp : firstAt ps path with
    | none => simpa [hp] using hget
    | some p =>
      refine ⟨typeAfter ps ((pass ps empty).size + 1) path, ?_, fun type' => ?_⟩
      · rw [hget, hp, Option.map_some, symbol, type_eq]
        simp only [valueType_passes, typeAfter, hp]
      · exact chainType_iff (Nat.le_succ _) (by simp [hp])

end SymbolTable

end ConfigSchema
