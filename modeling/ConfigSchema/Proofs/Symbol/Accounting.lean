import ConfigSchema.Proofs.Symbol.Dotted

/-!
What becomes of each publication of a document. A publication has a place in the document, and the
places are in the order of a walk through it. Main statement: the table has a symbol for exactly the
paths of publications, each made by the first one there, and lists exactly the publications without
a path, in the order of their places.
-/

namespace ConfigSchema

/-- Where a publication is in a document: the number of its block, and the name of the attribute
unless it is the block itself. -/
structure Place where
  block : Nat
  name : Option String

namespace Place

/-- The order of a walk: block by block, and in each of them the block itself before its attributes,
which come by their names. -/
def Before (x y : Place) : Prop :=
  x.block < y.block ∨
    x.block = y.block ∧ Option.lt (fun a b => compare a b = .lt) x.name y.name

theorem not_before_self (x : Place) : ¬x.Before x := by
  obtain ⟨block, name⟩ := x
  rintro (h | ⟨-, h⟩)
  · exact Nat.lt_irrefl _ h
  · cases name with
    | none => exact h
    | some name =>
        have hself : compare name name = .eq := Std.ReflCmp.compare_self
        cases hself.symm.trans h

end Place

namespace Publication

/-- The block at a place, or its attribute there, publishes by a reference of its schema. The schema
of an attribute is the one under its name, or else the open rule. -/
inductive IsAt (tree : SchemaTree) (bs : List BlockInstance) : Place → Publication → Prop
  | ofBlock {i : Nat} {b : BlockInstance} {schema : BlockSchema} {r : Reference}
    (hb : bs[i]? = some b) (hschema : tree.block? b.blockType = some schema)
    (hr : schema.reference = some r) : IsAt tree bs ⟨i, none⟩ ⟨b, none, r⟩
  | ofAttribute {i : Nat} {b : BlockInstance} {schema : BlockSchema} {name : String}
    {v : AttributeValue} {a : AttributeSchema} {r : Reference}
    (hb : bs[i]? = some b) (hschema : tree.block? b.blockType = some schema)
    (hv : b.attribute? name = some v) (ha : schema.attributeFor? name = some a)
    (hr : a.reference = some r) : IsAt tree bs ⟨i, some name⟩ ⟨b, some name, r⟩

/-- What the attributes of a block publish, when the block has the given schema. -/
def ofAttributes (schema : BlockSchema) (b : BlockInstance) : List Publication :=
  b.attributes.keys.filterMap fun name =>
    (schema.attributeFor? name).bind fun a => a.reference.map fun r => ⟨b, some name, r⟩

theorem mem_ofAttributes {schema : BlockSchema} {b : BlockInstance} {p : Publication} :
    p ∈ ofAttributes schema b ↔ ∃ name v a r, b.attribute? name = some v ∧
      schema.attributeFor? name = some a ∧ a.reference = some r ∧ p = ⟨b, some name, r⟩ := by
  simp only [ofAttributes, List.mem_filterMap, Entries.mem_keys_iff, Option.bind_eq_some_iff,
    Option.map_eq_some_iff]
  constructor
  · rintro ⟨name, ⟨v, hv⟩, a, ha, r, hr, rfl⟩
    exact ⟨name, v, a, r, hv, ha, hr, rfl⟩
  · rintro ⟨name, v, a, r, hv, ha, hr, rfl⟩
    exact ⟨name, ⟨v, hv⟩, a, ha, r, hr, rfl⟩

theorem ofBlock_eq {tree : SchemaTree} {b : BlockInstance} {schema : BlockSchema}
    (h : tree.block? b.blockType = some schema) :
    ofBlock tree b = (schema.reference.map fun r => ⟨b, none, r⟩).toList ++
      ofAttributes schema b := by
  simp only [ofBlock, h, ofAttributes]
  cases schema.reference <;> rfl

theorem ofBlock_eq_nil {tree : SchemaTree} {b : BlockInstance}
    (h : tree.block? b.blockType = none) : ofBlock tree b = [] := by
  rw [ofBlock, h]

/-- The names of what a block publishes are in the order of the walk. -/
theorem pairwise_ofBlock (tree : SchemaTree) (b : BlockInstance) :
    (ofBlock tree b).Pairwise fun p q =>
      Option.lt (fun a b => compare a b = .lt) p.name q.name := by
  cases hschema : tree.block? b.blockType with
  | none =>
      rw [ofBlock_eq_nil hschema]
      exact .nil
  | some schema =>
      rw [ofBlock_eq hschema, List.pairwise_append]
      refine ⟨?_, ?_, fun p hp q hq => ?_⟩
      · cases schema.reference <;> simp
      · refine List.Pairwise.filterMap _ (fun name name' hlt p hp q hq => ?_)
          b.attributes.pairwise_keys
        obtain ⟨a, -, hp⟩ := Option.bind_eq_some_iff.1 hp
        obtain ⟨a', -, hq⟩ := Option.bind_eq_some_iff.1 hq
        obtain ⟨r, -, rfl⟩ := Option.map_eq_some_iff.1 hp
        obtain ⟨r', -, rfl⟩ := Option.map_eq_some_iff.1 hq
        exact hlt
      · obtain ⟨r, -, rfl⟩ := by simpa using hp
        obtain ⟨name, v, a, r', -, -, -, rfl⟩ := mem_ofAttributes.1 hq
        trivial

/-- The publications of a document with their places. -/
def placed (tree : SchemaTree) (bs : List BlockInstance) : List (Place × Publication) :=
  bs.zipIdx.flatMap fun x => (ofBlock tree x.1).map fun p => (⟨x.2, p.name⟩, p)

variable {tree : SchemaTree} {bs : List BlockInstance}

/-- Without the places these are the publications in the order in which they are collected. -/
theorem map_snd_placed (tree : SchemaTree) (bs : List BlockInstance) :
    (placed tree bs).map Prod.snd = ofDocument tree bs := by
  have hblock : ∀ x : BlockInstance × Nat, ((ofBlock tree x.1).map fun p =>
      ((⟨x.2, p.name⟩, p) : Place × Publication)).map Prod.snd = ofBlock tree x.1 := fun x => by
    rw [List.map_map]
    exact List.map_id _
  rw [placed, List.map_flatMap, ofDocument]
  simp only [hblock]
  rw [← List.flatMap_map, List.zipIdx_map_fst]

theorem mem_placed {place : Place} {p : Publication} :
    (place, p) ∈ placed tree bs ↔ IsAt tree bs place p := by
  simp only [placed, List.mem_flatMap, List.mem_map, Prod.exists, List.mem_zipIdx_iff_getElem?]
  constructor
  · rintro ⟨b, i, hb, q, hq, hplace⟩
    cases hplace
    cases hschema : tree.block? b.blockType with
    | none =>
        rw [ofBlock_eq_nil hschema] at hq
        cases hq
    | some schema =>
        rw [ofBlock_eq hschema, List.mem_append, mem_ofAttributes] at hq
        rcases hq with hq | ⟨name, v, a, r, hv, ha, hr, rfl⟩
        · obtain ⟨r, hr, rfl⟩ := by simpa using hq
          exact .ofBlock hb hschema hr
        · exact .ofAttribute hb hschema hv ha hr
  · intro h
    cases h with
    | @ofBlock i b schema r hb hschema hr =>
        refine ⟨b, i, hb, ⟨b, none, r⟩, ?_, rfl⟩
        rw [ofBlock_eq hschema, hr]
        exact List.mem_append_left _ (by simp)
    | @ofAttribute i b schema name v a r hb hschema hv ha hr =>
        refine ⟨b, i, hb, ⟨b, some name, r⟩, ?_, rfl⟩
        rw [ofBlock_eq hschema]
        exact List.mem_append_right _ (mem_ofAttributes.2 ⟨name, v, a, r, hv, ha, hr, rfl⟩)

theorem pairwise_placed (tree : SchemaTree) (bs : List BlockInstance) :
    (placed tree bs).Pairwise fun x y => x.1.Before y.1 := by
  rw [placed, List.pairwise_flatMap]
  constructor
  · intro x _
    rw [List.pairwise_map]
    exact (pairwise_ofBlock tree x.1).imp fun h => .inr ⟨rfl, h⟩
  · have hnumbers : bs.zipIdx.Pairwise fun x y => x.2 < y.2 := by
      rw [← List.pairwise_map (f := Prod.snd) (R := (· < ·)), List.zipIdx_map_snd]
      exact List.pairwise_lt_range'
    refine hnumbers.imp fun hlt u hu w hw => ?_
    obtain ⟨p, -, rfl⟩ := List.mem_map.1 hu
    obtain ⟨q, -, rfl⟩ := List.mem_map.1 hw
    exact .inl hlt

/-- The publication is the first one under a path. -/
def IsFirstAt (tree : SchemaTree) (bs : List BlockInstance) (path : RefPath) (p : Publication) :
    Prop :=
  ∃ place, IsAt tree bs place p ∧ p.resolve = .ok path ∧
    ∀ place' p', IsAt tree bs place' p' → p'.resolve = .ok path →
      place' = place ∨ place.Before place'

theorem path?_eq_some_iff {p : Publication} {path : RefPath} :
    p.path? = some path ↔ p.resolve = .ok path := by
  unfold path?
  cases p.resolve <;> simp [Except.toOption]

theorem isFirstAt_of_firstAt {path : RefPath} {p : Publication}
    (h : firstAt (ofDocument tree bs) path = some p) : IsFirstAt tree bs path p := by
  rw [firstAt, ← map_snd_placed, List.find?_map, Option.map_eq_some_iff] at h
  obtain ⟨⟨place, p⟩, hfind, rfl⟩ := h
  obtain ⟨hpath, before, after, hsplit, hbefore⟩ := List.find?_eq_some_iff_append.1 hfind
  have horder := pairwise_placed tree bs
  rw [hsplit, List.pairwise_append, List.pairwise_cons] at horder
  obtain ⟨-, ⟨hafter, -⟩, -⟩ := horder
  refine ⟨place, ?_, path?_eq_some_iff.1 (by simpa using hpath), fun place' p' hp' hpath' => ?_⟩
  · rw [← mem_placed, hsplit]
    exact List.mem_append_right _ List.mem_cons_self
  · rw [← mem_placed, hsplit, List.mem_append, List.mem_cons] at hp'
    rcases hp' with hp' | hp' | hp'
    · have hnot := hbefore _ hp'
      simp [path?_eq_some_iff.2 hpath'] at hnot
    · exact .inl (congrArg Prod.fst hp')
    · exact .inr (hafter _ hp')

/-- What a table lists about a publication: the reason, if there is no path. -/
def skipped? (p : Publication) : Option SkippedSymbol :=
  match p.resolve with
  | .ok _ => none
  | .error reason => some ⟨p.block.blockType, p.name, reason⟩

theorem skipped?_eq_some_iff {p : Publication} {s : SkippedSymbol} :
    p.skipped? = some s ↔
      ∃ reason, p.resolve = .error reason ∧ s = ⟨p.block.blockType, p.name, reason⟩ := by
  unfold skipped?
  cases p.resolve <;> simp [@eq_comm _ _ s]

theorem skipped_addTo (known t : SymbolTable) (p : Publication) :
    (p.addTo known t).skipped = t.skipped ++ p.skipped?.toList := by
  unfold addTo skipped?
  cases p.resolve with
  | ok path =>
      simp only [SymbolTable.insert]
      split <;> simp
  | error reason => simp [SymbolTable.skip]

/-- The publications without a path, each with its place and what a table lists about it. -/
structure Unresolvable (tree : SchemaTree) (bs : List BlockInstance)
    (l : List (Place × SkippedSymbol)) : Prop where
  ordered : l.Pairwise fun x y => x.1.Before y.1
  nodup : (l.map Prod.fst).Nodup
  mem_iff : ∀ place s, (place, s) ∈ l ↔ ∃ p reason, IsAt tree bs place p ∧
    p.resolve = .error reason ∧ s = ⟨p.block.blockType, p.name, reason⟩

theorem unresolvable_filterMap (tree : SchemaTree) (bs : List BlockInstance) :
    Unresolvable tree bs
      ((placed tree bs).filterMap fun x => x.2.skipped?.map fun s => (x.1, s)) := by
  have hordered : ((placed tree bs).filterMap fun x =>
      x.2.skipped?.map fun s => (x.1, s)).Pairwise fun x y => x.1.Before y.1 := by
    refine List.Pairwise.filterMap _ (fun x y hlt u hu w hw => ?_) (pairwise_placed tree bs)
    obtain ⟨s, -, rfl⟩ := Option.map_eq_some_iff.1 hu
    obtain ⟨s', -, rfl⟩ := Option.map_eq_some_iff.1 hw
    exact hlt
  refine ⟨hordered, ?_, fun place s => ?_⟩
  · refine List.Pairwise.imp ?_ (List.pairwise_map.2 hordered)
    rintro x _ hlt rfl
    exact x.not_before_self hlt
  · simp only [List.mem_filterMap, Option.map_eq_some_iff, skipped?_eq_some_iff, Prod.exists,
      Prod.mk.injEq, mem_placed]
    constructor
    · rintro ⟨place, p, hp, s, ⟨reason, hreason, rfl⟩, rfl, rfl⟩
      exact ⟨p, reason, hp, hreason, rfl⟩
    · rintro ⟨p, reason, hp, hreason, rfl⟩
      exact ⟨place, p, hp, _, ⟨reason, hreason, rfl⟩, rfl, rfl⟩

end Publication

namespace SymbolTable

open Publication

theorem skipped_foldl_addTo (known t : SymbolTable) (ps : List Publication) :
    (ps.foldl (Publication.addTo known) t).skipped = t.skipped ++ ps.filterMap skipped? := by
  induction ps generalizing t with
  | nil => simp
  | cons p ps ih =>
      rw [List.foldl_cons, ih, skipped_addTo, List.append_assoc, List.filterMap_cons]
      cases p.skipped? <;> rfl

/-- What a pass lists does not depend on the known symbols. -/
theorem skipped_pass (ps : List Publication) (known : SymbolTable) :
    (pass ps known).skipped = ps.filterMap skipped? := by
  simpa [pass, empty] using skipped_foldl_addTo known empty ps

theorem skipped_collect (tree : SchemaTree) (bs : List BlockInstance) :
    (collect tree bs).skipped = (ofDocument tree bs).filterMap skipped? := by
  rw [collect_eq_passes, passes, skipped_pass]

/-- A path has a symbol just when a publication resolves to it, and the symbol is then that of the
first such publication in the order of places. The publications that do not resolve are listed with
their reasons in the order of places, and every pass lists the same. -/
theorem collect_accounting (tree : SchemaTree) (bs : List BlockInstance) :
    (∀ path, (∃ s, (collect tree bs).get? path = some s) ↔
      ∃ place p, IsAt tree bs place p ∧ p.resolve = .ok path) ∧
    (∀ path s, (collect tree bs).get? path = some s → s.path = path ∧
      ∃ p, IsFirstAt tree bs path p ∧ s.scope = p.reference.scope ∧
        s.blockType = p.block.blockType) ∧
    (∃ l, Unresolvable tree bs l ∧ (collect tree bs).skipped = l.map Prod.snd) ∧
    ∀ known, (pass (ofDocument tree bs) known).skipped = (collect tree bs).skipped := by
  have hfirst : ∀ path s, (collect tree bs).get? path = some s →
      ∃ p, IsFirstAt tree bs path p ∧ s.scope = p.reference.scope ∧
        s.blockType = p.block.blockType := by
    intro path s hs
    rw [collect_eq_passes, passes, get?_pass, Option.map_eq_some_iff] at hs
    obtain ⟨p, hp, rfl⟩ := hs
    exact ⟨p, isFirstAt_of_firstAt hp, rfl, rfl⟩
  refine ⟨fun path => ⟨?_, ?_⟩, fun path s hs => ?_, ?_, fun known => ?_⟩
  · rintro ⟨s, hs⟩
    obtain ⟨p, ⟨place, hat, hpath, -⟩, -⟩ := hfirst path s hs
    exact ⟨place, p, hat, hpath⟩
  · rintro ⟨place, p, hat, hpath⟩
    refine exists_get?_collect ?_ hpath
    rw [← map_snd_placed]
    exact List.mem_map_of_mem (mem_placed.2 hat)
  · exact ⟨(collect tree bs).keyed path s hs, hfirst path s hs⟩
  · refine ⟨_, unresolvable_filterMap tree bs, ?_⟩
    rw [skipped_collect, ← map_snd_placed, List.filterMap_map, List.map_filterMap]
    congr 1
    funext x
    cases h : x.2.skipped? <;> simp [h]
  · rw [skipped_pass, skipped_collect]

end SymbolTable

end ConfigSchema
