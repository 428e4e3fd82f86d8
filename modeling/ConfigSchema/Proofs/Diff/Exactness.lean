import ConfigSchema.Proofs.Diff.Sites

/-!
Every difference between two schemas is reported, and none of them twice. What is reported of the
parts of a block is put together along the comparison of two blocks, and below the path of a nested
block are the reports of that block. Main statement: `SchemaTree.changes_exact`.
-/

namespace ConfigSchema

open AttributeSchema BlockSchema SchemaChange

section Parts

variable {path : String}

theorem reports_ofAttribute {s : Site} (a a' : AttributeSchema) {p : String}
    (hs : s.text path = p) :
    Reports path (ofAttribute a a' p) fun d => d.2 = s ∧ RuleDiffers (some a) (some a') d.1 := by
  subst hs
  refine (((reports_ite (s := s) rfl).append (reports_ite (s := s) rfl) ?_).append
    (reports_ite (s := s) rfl) ?_).congr ?_
  · rintro d ⟨-, h⟩ ⟨-, h'⟩
    simp [h] at h'
  · rintro d (⟨-, h⟩ | ⟨-, h⟩) ⟨-, h'⟩ <;> simp [h, documentation] at h'
  · rintro ⟨kind, t⟩
    constructor
    · rintro ((⟨h, e⟩ | ⟨h, e⟩) | ⟨h, e⟩) <;> cases e
      · exact ⟨rfl, .constraints h⟩
      · exact ⟨rfl, .presence h⟩
      · exact ⟨rfl, .description h⟩
    · rintro ⟨rfl, h⟩
      cases h with
      | constraints h => exact .inl (.inl ⟨h, rfl⟩)
      | presence h => exact .inl (.inr ⟨h, rfl⟩)
      | description h => exact .inr ⟨h, rfl⟩

/-- One change for a rule that comes or goes. -/
theorem reports_rule {c : SchemaChange} {s : Site} {rule rule' : Option AttributeSchema}
    (hs : c.path = s.text path) (hkind : ∀ kind, RuleDiffers rule rule' kind ↔ kind = c.kind) :
    Reports path [c] fun d => d.2 = s ∧ RuleDiffers rule rule' d.1 :=
  (reports_singleton hs).congr fun d => by rw [hkind, Prod.ext_iff, and_comm]

theorem reports_ofAttributes (as as' : SortedMap String AttributeSchema) :
    Reports path (ofAttributes as as' path) fun d => ∃ name,
      d.2 = ⟨[], .rule (some name)⟩ ∧ RuleDiffers (as.get? name) (as'.get? name) d.1 := by
  rw [ofAttributes_eq_differences]
  refine reports_differences (P := fun name a a' d =>
    d.2 = ⟨[], .rule (some name)⟩ ∧ RuleDiffers a a' d.1)
    (fun name a a' _ => reports_ofAttribute a a' rfl)
    (fun name a => reports_rule rfl fun _ => ruleDiffers_none_right)
    (fun name a => reports_rule rfl fun _ => ruleDiffers_none_left) ?_ ?_
  · rintro name d ⟨-, ⟨⟩⟩
  · rintro name name' a a₁ a' a₁' d ⟨h, -⟩ ⟨h', -⟩
    cases h.symm.trans h'
    rfl

theorem reports_ofOpenRule (rule rule' : Option AttributeSchema) :
    Reports path (ofOpenRule rule rule' path) fun d =>
      d.2 = ⟨[], .rule none⟩ ∧ RuleDiffers rule rule' d.1 := by
  cases rule with
  | some a =>
      cases rule' with
      | some a' => exact reports_ofAttribute a a' rfl
      | none => exact reports_rule rfl fun _ => ruleDiffers_none_right
  | none =>
      cases rule' with
      | some a' => exact reports_rule rfl fun _ => ruleDiffers_none_left
      | none =>
          refine reports_nil.congr fun d => ?_
          simp only [false_iff]
          rintro ⟨-, ⟨⟩⟩

theorem reports_rules (b b' : BlockSchema) :
    Reports path (ofAttributes b.attributes b'.attributes path ++
      ofOpenRule b.openRule b'.openRule path) fun d => ∃ name, d.2 = ⟨[], .rule name⟩ ∧
        RuleDiffers (b.rule? name) (b'.rule? name) d.1 := by
  refine .congr (.append (reports_ofAttributes b.attributes b'.attributes)
    (reports_ofOpenRule b.openRule b'.openRule) ?_) fun d => ?_
  · rintro d ⟨name, h, -⟩ ⟨h', -⟩
    simp [h] at h'
  · rw [Option.exists, or_comm]
    rfl

/-- The changes of a block without those of its nested blocks. -/
theorem reports_ofBlock (b b' : BlockSchema) :
    Reports path (ofBlock b b' path) fun d => ∃ part, d.2 = ⟨[], part⟩ ∧
      b.PartDiffers b' d.1 part ∧ ∀ name, part ≠ .nested name := by
  rw [ofBlock, List.append_assoc]
  refine .congr (.append (.append (.append (.append (reports_ite (s := ⟨[], .labels⟩) rfl)
    (reports_ite (s := ⟨[], .limit⟩) rfl) ?_) (reports_ite (s := ⟨[], .reference⟩) rfl) ?_)
    (reports_ite (s := ⟨[], .description⟩) rfl) ?_) (reports_rules b b') ?_) ?_
  · rintro d ⟨-, h⟩ ⟨-, h'⟩
    simp [h] at h'
  · rintro d (⟨-, h⟩ | ⟨-, h⟩) ⟨-, h'⟩ <;> simp [h] at h'
  · rintro d ((⟨-, h⟩ | ⟨-, h⟩) | ⟨-, h⟩) ⟨-, h'⟩ <;> simp [h] at h'
  · rintro d (((⟨-, h⟩ | ⟨-, h⟩) | ⟨-, h⟩) | ⟨-, h⟩) ⟨name, h', -⟩ <;> simp [h] at h'
  · rintro ⟨kind, s⟩
    constructor
    · rintro ((((⟨h, e⟩ | ⟨h, e⟩) | ⟨h, e⟩) | ⟨h, e⟩) | ⟨name, e, h⟩) <;> cases e
      · exact ⟨_, rfl, .labels h, by simp⟩
      · exact ⟨_, rfl, .limit h, by simp⟩
      · exact ⟨_, rfl, .reference h, by simp⟩
      · exact ⟨_, rfl, .description h, by simp⟩
      · exact ⟨_, rfl, .rule name h, by simp⟩
    · rintro ⟨part, rfl, h, hnested⟩
      cases h with
      | labels h => exact .inl (.inl (.inl (.inl ⟨h, rfl⟩)))
      | limit h => exact .inl (.inl (.inl (.inr ⟨h, rfl⟩)))
      | reference h => exact .inl (.inl (.inr ⟨h, rfl⟩))
      | description h => exact .inl (.inr ⟨h, rfl⟩)
      | rule name h => exact .inr ⟨name, rfl, h⟩
      | removed h h' => exact absurd rfl (hnested _)
      | added h h' => exact absurd rfl (hnested _)

end Parts

namespace BlockSchema

/-- What is reported of the nested block of a name, which one of two blocks may lack. -/
inductive NestedDiffers (name : String) :
    Option BlockSchema → Option BlockSchema → ChangeKind × Site → Prop
  | within {b b' : BlockSchema} {kind : ChangeKind} {path : List String} {part : Part} :
    b.DiffersAt b' kind ⟨path, part⟩ →
    NestedDiffers name (some b) (some b') (kind, ⟨name :: path, part⟩)
  | removed (b : BlockSchema) :
    NestedDiffers name (some b) none (.blockRemoved, ⟨[], .nested name⟩)
  | added (b : BlockSchema) :
    NestedDiffers name none (some b) (.blockAdded, ⟨[], .nested name⟩)

section NestedDiffers

variable {name : String} {b b' : BlockSchema} {d : ChangeKind × Site}

theorem nestedDiffers_some_some :
    NestedDiffers name (some b) (some b') d ↔ ∃ s, d.2 = s.under name ∧ b.DiffersAt b' d.1 s := by
  obtain ⟨kind, s⟩ := d
  constructor
  · rintro ⟨h⟩
    exact ⟨⟨_, _⟩, rfl, h⟩
  · rintro ⟨s, rfl, h⟩
    exact .within h

theorem nestedDiffers_none_right :
    NestedDiffers name (some b) none d ↔ d = (.blockRemoved, ⟨[], .nested name⟩) := by
  constructor
  · rintro ⟨⟩
    rfl
  · rintro rfl
    exact .removed b

theorem nestedDiffers_none_left :
    NestedDiffers name none (some b) d ↔ d = (.blockAdded, ⟨[], .nested name⟩) := by
  constructor
  · rintro ⟨⟩
    rfl
  · rintro rfl
    exact .added b

end NestedDiffers

/-- A difference is of the block itself or of one of its nested blocks. -/
theorem differsAt_iff {b b' : BlockSchema} {kind : ChangeKind} {s : Site} :
    b.DiffersAt b' kind s ↔
      (∃ part, s = ⟨[], part⟩ ∧ b.PartDiffers b' kind part ∧ ∀ name, part ≠ .nested name) ∨
      ∃ name, NestedDiffers name (b.blocks.get? name) (b'.blocks.get? name) (kind, s) := by
  constructor
  · obtain ⟨path, part⟩ := s
    rintro ⟨n, n', hn, hn', h⟩
    cases path with
    | nil =>
        cases hn
        cases hn'
        by_cases hnested : ∃ name, part = .nested name
        · obtain ⟨name, rfl⟩ := hnested
          refine .inr ⟨name, ?_⟩
          cases h with
          | removed hv hw =>
              rw [hv, hw]
              exact .removed _
          | added hv hw =>
              rw [hv, hw]
              exact .added _
        · exact .inl ⟨part, rfl, h, fun name e => hnested ⟨name, e⟩⟩
    | cons name path =>
        rw [nestedAt?_cons] at hn hn'
        obtain ⟨m, hm, hn⟩ := Option.bind_eq_some_iff.1 hn
        obtain ⟨m', hm', hn'⟩ := Option.bind_eq_some_iff.1 hn'
        refine .inr ⟨name, ?_⟩
        rw [hm, hm']
        exact .within ⟨n, n', hn, hn', h⟩
  · rintro (⟨part, rfl, h, -⟩ | ⟨name, h⟩)
    · exact ⟨b, b', rfl, rfl, h⟩
    · generalize hv : b.blocks.get? name = v at h
      generalize hw : b'.blocks.get? name = w at h
      cases h with
      | within h =>
          obtain ⟨n, n', hn, hn', h⟩ := h
          refine ⟨n, n', ?_, ?_, h⟩
          · rwa [nestedAt?_cons, hv]
          · rwa [nestedAt?_cons, hw]
      | removed m => exact ⟨b, b', rfl, rfl, .removed hv hw⟩
      | added m => exact ⟨b, b', rfl, rfl, .added hv hw⟩

/-- The induction is on the first block; the nested blocks that the second one has too bring their
own reports, below their paths. -/
theorem reports_changes (b b' : BlockSchema) (path : String) :
    Reports path (b.changes b' path) fun d => b.DiffersAt b' d.1 d.2 := by
  induction b using induct generalizing b' path with
  | block b ih =>
      rw [changes_eq_append, BlockMap.changes_eq_differences]
      refine ((reports_ofBlock b b').append (reports_differences (P := NestedDiffers)
        (fun name n n' hn => ?_) (fun name n => ?_) (fun name n => ?_) ?_ ?_) ?_).congr
          fun d => differsAt_iff.symm
      · exact (ih name n hn n' _).under.congr fun d => nestedDiffers_some_some.symm
      · exact (reports_singleton rfl).congr fun d => nestedDiffers_none_right.symm
      · exact (reports_singleton rfl).congr fun d => nestedDiffers_none_left.symm
      · rintro name d ⟨⟩
      · rintro name name' v v' w w' d h h'
        cases h <;> cases h' <;> rfl
      · -- names of nested blocks are no part of what the block reports itself
        rintro ⟨kind, s⟩ ⟨part, e, -, hnested⟩ ⟨name, h⟩
        generalize b.blocks.get? name = v at h
        generalize b'.blocks.get? name = w at h
        cases h with
        | within h => cases e
        | removed n => exact hnested name (congrArg Site.part e).symm
        | added n => exact hnested name (congrArg Site.part e).symm

/-- A block around a site of a difference is in both blocks. -/
theorem DiffersAt.isSome_nestedAt? {b b' : BlockSchema} {kind : ChangeKind} {s : Site}
    (h : b.DiffersAt b' kind s) {path : List String} (hpath : path <+: s.path) :
    (b.nestedAt? path).isSome = true ∧ (b'.nestedAt? path).isSome = true := by
  obtain ⟨rest, hrest⟩ := hpath
  obtain ⟨n, n', hn, hn', -⟩ := h
  rw [← hrest, nestedAt?_append, Option.bind_eq_some_iff] at hn hn'
  obtain ⟨m, hm, -⟩ := hn
  obtain ⟨m', hm', -⟩ := hn'
  rw [hm, hm']
  exact ⟨rfl, rfl⟩

end BlockSchema

namespace SchemaTree

/-- At the top level there is nothing but blocks. -/
theorem changes_eq_root (old new : SchemaTree) :
    old.changes new = old.root.changes new.root "" := by
  have hown : ofBlock old.root new.root "" = [] := ofBlock_blocks old.root new.blocks ""
  rw [changes_eq_append, hown]
  rfl

/-- Of each kind of change exactly the differences between blocks that both trees have are reported,
each of them once, and nothing below a block that only one of them has. -/
theorem changes_exact (old new : SchemaTree) :
    (∀ kind, ∃ sites : List Site, sites.Nodup ∧
        (∀ s, s ∈ sites ↔ old.root.DiffersAt new.root kind s) ∧
        ((old.changes new).filter fun c => c.kind = kind).map (·.path) =
          sites.map (Site.text "")) ∧
      ∀ path, (old.blockAt? path).isSome ≠ (new.blockAt? path).isSome →
        ∀ kind s, old.root.DiffersAt new.root kind s → ¬path <+: s.path := by
  refine ⟨fun kind => ?_, fun path hpath kind s hs hbelow => hpath ?_⟩
  · rw [changes_eq_root]
    exact (reports_changes old.root new.root "").ofKind kind
  · obtain ⟨hold, hnew⟩ := hs.isSome_nestedAt? hbelow
    cases path with
    | nil => rfl
    | cons name rest => exact hold.trans hnew.symm

/-- Services with a listed setting `*` beside the rule for settings of any name. -/
def starredServices : SchemaTree :=
  empty.withBlock "service"
    ((BlockSchema.bare.withOpenRule (.optional [.any])).withAttribute "*" (.optional [.any]))

/-- Without the two rules the report names the same path twice, for two places. Without the services
nothing is reported below them. -/
theorem changes_exact_starredServices :
    (∃ sites : List Site, sites.Nodup ∧
        (∀ s, s ∈ sites ↔ starredServices.root.DiffersAt
          (empty.withBlock "service" BlockSchema.bare).root .attributeRemoved s) ∧
        ["service.*", "service.*"] = sites.map (Site.text "")) ∧
      (starredServices.blockAt? ["service"]).isSome ≠ (empty.blockAt? ["service"]).isSome ∧
      ∀ kind s, starredServices.root.DiffersAt empty.root kind s → ¬["service"] <+: s.path := by
  have hreport : ((starredServices.changes (empty.withBlock "service" BlockSchema.bare)).filter
      fun c => c.kind = .attributeRemoved).map (·.path) = ["service.*", "service.*"] := by decide
  have hmissing : (starredServices.blockAt? ["service"]).isSome ≠
      (empty.blockAt? ["service"]).isSome := by decide
  obtain ⟨sites, hnodup, hmem, htexts⟩ := (changes_exact starredServices
    (empty.withBlock "service" BlockSchema.bare)).1 .attributeRemoved
  exact ⟨⟨sites, hnodup, hmem, hreport.symm.trans htexts⟩, hmissing,
    (changes_exact starredServices empty).2 ["service"] hmissing⟩

end SchemaTree

end ConfigSchema
