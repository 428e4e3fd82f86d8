import ConfigSchema.Proofs.Diff.Locality
import Mathlib.Data.List.Nodup

/-!
The places at which two schemas can differ, and reports that name each place of a difference once.
A difference is of a part of a block that both schemas have; what is nested in a block that only one
of them has is passed over.
-/

namespace ConfigSchema

/-- What becomes of a rule for attributes that one of two schemas may lack. -/
inductive AttributeSchema.RuleDiffers :
    Option AttributeSchema → Option AttributeSchema → ChangeKind → Prop
  | removed (a : AttributeSchema) : RuleDiffers (some a) none .attributeRemoved
  | added (a : AttributeSchema) : RuleDiffers none (some a) .attributeAdded
  | constraints {a a' : AttributeSchema} : a.constraints ≠ a'.constraints →
    RuleDiffers (some a) (some a') .constraintsChanged
  | presence {a a' : AttributeSchema} : a.isRequired ≠ a'.isRequired →
    RuleDiffers (some a) (some a') .optionalityChanged
  | description {a a' : AttributeSchema} : a.description ≠ a'.description →
    RuleDiffers (some a) (some a') .documentationChanged

namespace AttributeSchema

theorem ruleDiffers_none_right {a : AttributeSchema} {kind : ChangeKind} :
    RuleDiffers (some a) none kind ↔ kind = .attributeRemoved := by
  constructor
  · rintro ⟨⟩
    rfl
  · rintro rfl
    exact .removed a

theorem ruleDiffers_none_left {a : AttributeSchema} {kind : ChangeKind} :
    RuleDiffers none (some a) kind ↔ kind = .attributeAdded := by
  constructor
  · rintro ⟨⟩
    rfl
  · rintro rfl
    exact .added a

end AttributeSchema

namespace BlockSchema

open AttributeSchema

/-- What of a block a change is about. The rule without a name is the open one. -/
inductive Part
  | labels
  | limit
  | reference
  | description
  | rule (name : Option String)
  | nested (name : String)

/-- The rule for a listed attribute, or the open rule. -/
def rule? (b : BlockSchema) : Option String → Option AttributeSchema
  | some name => b.attributes.get? name
  | none => b.openRule

/-- The parts in which two blocks differ. Of nested blocks only the names count. -/
inductive PartDiffers (b b' : BlockSchema) : ChangeKind → Part → Prop
  | labels : b.labels.map (·.name) ≠ b'.labels.map (·.name) → PartDiffers b b' .blockChanged .labels
  | limit : b.maxItems ≠ b'.maxItems → PartDiffers b b' .blockChanged .limit
  | reference : b.reference ≠ b'.reference → PartDiffers b b' .blockChanged .reference
  | description : b.description ≠ b'.description →
    PartDiffers b b' .documentationChanged .description
  | rule {kind : ChangeKind} (name : Option String) :
    RuleDiffers (b.rule? name) (b'.rule? name) kind → PartDiffers b b' kind (.rule name)
  | removed {name : String} {n : BlockSchema} :
    b.blocks.get? name = some n → b'.blocks.get? name = none →
    PartDiffers b b' .blockRemoved (.nested name)
  | added {name : String} {n : BlockSchema} :
    b.blocks.get? name = none → b'.blocks.get? name = some n →
    PartDiffers b b' .blockAdded (.nested name)

/-- The nested block at a path of names; the empty path leads to the block itself. -/
def nestedAt? (b : BlockSchema) : List String → Option BlockSchema
  | [] => some b
  | name :: rest => BlockMap.at? b.blocks (name :: rest)

theorem nestedAt?_cons (b : BlockSchema) (name : String) (rest : List String) :
    b.nestedAt? (name :: rest) = (b.blocks.get? name).bind fun n => n.nestedAt? rest := by
  cases rest with
  | nil => exact (Option.bind_fun_some (b.blocks.get? name)).symm
  | cons next rest => rfl

theorem nestedAt?_append (b : BlockSchema) (path rest : List String) :
    b.nestedAt? (path ++ rest) = (b.nestedAt? path).bind fun n => n.nestedAt? rest := by
  induction path generalizing b with
  | nil => rfl
  | cons name path ih =>
      rw [List.cons_append, nestedAt?_cons, nestedAt?_cons, Option.bind_assoc]
      exact Option.bind_congr fun n _ => ih n

end BlockSchema

/-- A part of the block at a path. -/
structure Site where
  path : List String
  part : BlockSchema.Part

namespace Site

open SchemaChange

/-- The site as it is written in a report, below a path. -/
def text (base : String) (s : Site) : String :=
  let path := s.path.foldl joinPath base
  match s.part with
  | .rule (some name) => joinPath path name
  | .rule none => joinPath path "*"
  | .nested name => joinPath path name
  | _ => path

/-- The site of a nested block as a site of the block around it. -/
def under (name : String) (s : Site) : Site := ⟨name :: s.path, s.part⟩

theorem text_under (base name : String) (s : Site) :
    (s.under name).text base = s.text (joinPath base name) := rfl

end Site

/-- Both blocks have a block at the path of the site, and these differ in its part. -/
def BlockSchema.DiffersAt (b b' : BlockSchema) (kind : ChangeKind) (s : Site) : Prop :=
  ∃ n n', b.nestedAt? s.path = some n ∧ b'.nestedAt? s.path = some n' ∧
    n.PartDiffers n' kind s.part

/-- The tree as a block with nothing but nested blocks. -/
def SchemaTree.root (t : SchemaTree) : BlockSchema :=
  { BlockSchema.bare with blocks := t.blocks }

namespace Entries

/-- The keys of two maps are those of the first one and the new ones of the second one. -/
theorem exists_mem_or_iff {α : Type} {old new : SortedMap String α}
    {P : String → Option α → Option α → Prop} (hnone : ∀ k, ¬P k none none) :
    ((∃ p ∈ old.toList, P p.1 (some p.2) (new.get? p.1)) ∨
      ∃ p ∈ new.toList.filter fun p => !old.contains p.1, P p.1 none (some p.2)) ↔
      ∃ k, P k (old.get? k) (new.get? k) := by
  constructor
  · rintro (⟨p, hp, h⟩ | ⟨p, hp, h⟩)
    · exact ⟨p.1, by rwa [get?_eq_some_iff.2 hp]⟩
    · obtain ⟨hmem, hadded⟩ := List.mem_filter.1 hp
      have hold : old.get? p.1 = none := by simpa [contains] using hadded
      exact ⟨p.1, by rwa [get?_eq_some_iff.2 hmem, hold]⟩
  · rintro ⟨k, h⟩
    cases hv : old.get? k with
    | some v =>
        rw [hv] at h
        exact .inl ⟨(k, v), mem_toList_of_get? hv, h⟩
    | none =>
        cases hw : new.get? k with
        | some w =>
            rw [hv, hw] at h
            exact .inr ⟨(k, w), List.mem_filter.2
              ⟨mem_toList_of_get? hw, by simp [contains, hv]⟩, h⟩
        | none =>
            rw [hv, hw] at h
            exact absurd h (hnone k)

end Entries

/-- The changes are those that the predicate describes, each of them once, with the sites written
below the path. -/
def Reports (base : String) (cs : List SchemaChange) (P : ChangeKind × Site → Prop) : Prop :=
  ∃ ds : List (ChangeKind × Site), ds.Nodup ∧ (∀ d, d ∈ ds ↔ P d) ∧
    cs.map (fun c => (c.kind, c.path)) = ds.map fun d => (d.1, d.2.text base)

section Reports

variable {base : String} {cs cs' : List SchemaChange} {P Q : ChangeKind × Site → Prop}

theorem Reports.congr (h : Reports base cs P) (hPQ : ∀ d, P d ↔ Q d) : Reports base cs Q := by
  obtain ⟨ds, hnodup, hmem, hmap⟩ := h
  exact ⟨ds, hnodup, fun d => (hmem d).trans (hPQ d), hmap⟩

theorem reports_nil : Reports base [] fun _ => False :=
  ⟨[], List.nodup_nil, by simp, rfl⟩

theorem reports_singleton {c : SchemaChange} {s : Site} (h : c.path = s.text base) :
    Reports base [c] fun d => d = (c.kind, s) :=
  ⟨[(c.kind, s)], List.nodup_singleton _, by simp, by simp [h]⟩

/-- A change that is reported on a condition. -/
theorem reports_ite {p : Prop} [Decidable p] {c : SchemaChange} {s : Site}
    (h : c.path = s.text base) :
    Reports base (if p then [] else [c]) fun d => ¬p ∧ d = (c.kind, s) := by
  split
  next hp => exact reports_nil.congr fun d => by simp [hp]
  next hp => exact (reports_singleton h).congr fun d => by simp [hp]

theorem Reports.append (h : Reports base cs P) (h' : Reports base cs' Q)
    (hdisjoint : ∀ d, P d → ¬Q d) : Reports base (cs ++ cs') fun d => P d ∨ Q d := by
  obtain ⟨ds, hnodup, hmem, hmap⟩ := h
  obtain ⟨ds', hnodup', hmem', hmap'⟩ := h'
  refine ⟨ds ++ ds', List.nodup_append'.2 ⟨hnodup, hnodup', fun d hd hd' => ?_⟩, fun d => ?_, ?_⟩
  · exact hdisjoint d ((hmem d).1 hd) ((hmem' d).1 hd')
  · rw [List.mem_append, hmem, hmem']
  · rw [List.map_append, List.map_append, hmap, hmap']

theorem Reports.flatMap {α : Type} {l : List α} {f : α → List SchemaChange}
    {P : α → ChangeKind × Site → Prop} (h : ∀ x ∈ l, Reports base (f x) (P x))
    (hdisjoint : l.Pairwise fun x y => ∀ d, P x d → ¬P y d) :
    Reports base (l.flatMap f) fun d => ∃ x ∈ l, P x d := by
  induction l with
  | nil => exact reports_nil.congr (by simp)
  | cons x l ih =>
      obtain ⟨hx, hl⟩ := List.pairwise_cons.1 hdisjoint
      obtain ⟨hhead, htail⟩ := List.forall_mem_cons.1 h
      rw [List.flatMap_cons]
      refine (hhead.append (ih htail hl) fun d hd => ?_).congr fun d => by simp
      rintro ⟨y, hy, hd'⟩
      exact hx y hy d hd hd'

/-- What is reported of a nested block, below the path of the block around it. -/
theorem Reports.under {name : String} (h : Reports (SchemaChange.joinPath base name) cs P) :
    Reports base cs fun d => ∃ s, d.2 = s.under name ∧ P (d.1, s) := by
  obtain ⟨ds, hnodup, hmem, hmap⟩ := h
  have hinjective : Function.Injective fun d : ChangeKind × Site => (d.1, d.2.under name) := by
    rintro ⟨k, path, part⟩ ⟨k', path', part'⟩ e
    cases e
    rfl
  refine ⟨ds.map fun d => (d.1, d.2.under name), hnodup.map hinjective, ?_, ?_⟩
  · rintro ⟨kind, s⟩
    simp only [List.mem_map, Prod.exists, Prod.mk.injEq, hmem]
    exact ⟨fun ⟨_, t, hP, e, e'⟩ => ⟨t, e'.symm, e ▸ hP⟩,
      fun ⟨t, e, hP⟩ => ⟨kind, t, hP, rfl, e.symm⟩⟩
  · simp only [hmap, List.map_map, Function.comp_def, Site.text_under]

/-- The changes of one kind. -/
theorem Reports.ofKind (h : Reports base cs P) (kind : ChangeKind) :
    ∃ sites : List Site, sites.Nodup ∧ (∀ s, s ∈ sites ↔ P (kind, s)) ∧
      (cs.filter fun c => c.kind = kind).map (·.path) = sites.map (Site.text base) := by
  obtain ⟨ds, hnodup, hmem, hmap⟩ := h
  refine ⟨(ds.filter fun d => d.1 = kind).map Prod.snd, ?_, fun s => ?_, ?_⟩
  · refine (hnodup.filter _).map_on fun d hd d' hd' e => Prod.ext ?_ e
    have hkind := of_decide_eq_true (List.mem_filter.1 hd).2
    have hkind' := of_decide_eq_true (List.mem_filter.1 hd').2
    exact hkind.trans hkind'.symm
  · simp [List.mem_map, List.mem_filter, hmem]
  · have hpairs := congrArg (fun l => (l.filter fun d => d.1 = kind).map Prod.snd) hmap
    simpa only [List.filter_map, List.map_map, Function.comp_def] using hpairs

/-- The differences between two maps, from what is reported of each name. -/
theorem reports_differences {α : Type} {kept : String → α → α → List SchemaChange}
    {removed added : String → α → SchemaChange} {old new : SortedMap String α}
    {P : String → Option α → Option α → ChangeKind × Site → Prop}
    (hkept : ∀ name v w, old.get? name = some v →
      Reports base (kept name v w) (P name (some v) (some w)))
    (hremoved : ∀ name v, Reports base [removed name v] (P name (some v) none))
    (hadded : ∀ name w, Reports base [added name w] (P name none (some w)))
    (hnone : ∀ name d, ¬P name none none d)
    (hname : ∀ name name' v v' w w' d, P name v w d → P name' v' w' d → name = name') :
    Reports base (Entries.differences kept removed added old new) fun d =>
      ∃ name, P name (old.get? name) (new.get? name) d := by
  have hne : ∀ m : SortedMap String α, m.toList.Pairwise fun p q => p.1 ≠ q.1 := fun m =>
    m.pairwise_toList.imp fun hlt e => by simp [e] at hlt
  rw [Entries.differences, List.map_eq_flatMap]
  refine .congr (.append
    (.flatMap (P := fun p d => P p.1 (some p.2) (new.get? p.1) d) (fun p hp => ?_)
      ((hne old).imp fun hpq d hd hd' => hpq (hname _ _ _ _ _ _ d hd hd')))
    (.flatMap (P := fun p d => P p.1 none (some p.2) d) (fun p _ => hadded p.1 p.2)
      (((hne new).filter _).imp fun hpq d hd hd' => hpq (hname _ _ _ _ _ _ d hd hd'))) ?_)
    fun d => Entries.exists_mem_or_iff (P := fun name v w => P name v w d) fun name => hnone name d
  · cases new.get? p.1 with
    | some w => exact hkept p.1 p.2 w (Entries.get?_eq_some_iff.2 hp)
    | none => exact hremoved p.1 p.2
  · -- what is new has none of the old names
    rintro d ⟨p, hp, hd⟩ ⟨q, hq, hd'⟩
    obtain ⟨-, hnone⟩ := List.mem_filter.1 hq
    rw [← hname _ _ _ _ _ _ d hd hd', Entries.contains, Entries.get?_eq_some_iff.2 hp] at hnone
    cases hnone

end Reports

end ConfigSchema
