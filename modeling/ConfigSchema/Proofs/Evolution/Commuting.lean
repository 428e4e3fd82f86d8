import ConfigSchema.Proofs.Evolution.Steps
import ConfigSchema.Proofs.Evolution.Places

/-!
Deltas that do not meet. Two edits of attributes do not meet unless they are of one attribute, and
an edit of a block meets those of the block itself and of all that is below it. Main statements:
deltas that do not meet can be applied in either order, and a run of such deltas in any order.
-/

namespace ConfigSchema

namespace Mutation

/-- Of two edits at places of which one is at or below the other, the upper one is of attributes;
and two of attributes of one block are of different ones. -/
structure Apart (μ ν : Mutation) (p q : List String) : Prop where
  left : p <+: q → μ.isOnBlock = false
  right : q <+: p → ν.isOnBlock = false
  names : p = q → μ.name ≠ ν.name

theorem Apart.of_cons {μ ν : Mutation} {p q : List String} {name : String}
    (h : Apart μ ν (name :: p) (name :: q)) : Apart μ ν p q :=
  ⟨fun hpre => h.left ((List.prefix_cons_inj name).2 hpre),
    fun hpre => h.right ((List.prefix_cons_inj name).2 hpre),
    fun heq => h.names (congrArg (name :: ·) heq)⟩

end Mutation

namespace BlockMap

/-- Changes under two names can be swapped, and changes under one name if they can there. -/
theorem ChangedAt.swap {R S : Option BlockSchema → BlockSchema → Prop} {name name' : String}
    {m m₁ m₂ : BlockMap} (h : ChangedAt R name m m₁) (h' : ChangedAt S name' m₁ m₂)
    (hswap : name = name' → ∀ o b b', R o b → S (some b) b' → ∃ c, S o c ∧ R (some c) b') :
    ∃ n, ChangedAt S name' m n ∧ ChangedAt R name n m₂ := by
  obtain ⟨b, hb, rfl⟩ := h
  obtain ⟨b', hb', rfl⟩ := h'
  by_cases hname : name = name'
  · subst hname
    rw [Entries.get?_insert_self] at hb'
    obtain ⟨c, hc, hcb'⟩ := hswap rfl _ b b' hb hb'
    refine ⟨m.insert name c, ⟨c, hc, rfl⟩, b', ?_, ?_⟩
    · rwa [Entries.get?_insert_self]
    · rw [Entries.insert_insert, Entries.insert_insert]
  · rw [Entries.get?_insert_of_ne _ hname] at hb'
    refine ⟨m.insert name' b', ⟨b', hb', rfl⟩, b, ?_, m.insert_comm hname b b'⟩
    rwa [Entries.get?_insert_of_ne _ (Ne.symm hname)]

end BlockMap

open BlockMap (ChangedAt EditedAt)

namespace Mutation

variable {μ ν : Mutation} {p q : List String}

/-- By recursion on both places at once: where they part, two names are changed; where one of them
ends, attributes are changed there and nested blocks below. -/
theorem EditsAt.swap (hapart : Apart μ ν p q) {o : Option BlockSchema} {b b' : BlockSchema}
    (h : μ.EditsAt p o b) (h' : ν.EditsAt q (some b) b') :
    ∃ c, ν.EditsAt q o c ∧ μ.EditsAt p (some c) b' := by
  induction p generalizing q o b b' with
  | nil =>
      have hμ : μ.isOnBlock = false := hapart.left List.nil_prefix
      obtain ⟨b₀, a, rfl, ha, rfl⟩ := (edits_iff_sets hμ).1 h
      cases q with
      | nil =>
          have hν : ν.isOnBlock = false := hapart.right List.nil_prefix
          have hne : μ.name ≠ ν.name := hapart.names rfl
          obtain ⟨_, a', ⟨⟩, ha', rfl⟩ := (edits_iff_sets hν).1 h'
          rw [Entries.get?_put_of_ne _ hne] at ha'
          refine ⟨{ b₀ with attributes := b₀.attributes.put ν.name a' },
            (edits_iff_sets hν).2 ⟨b₀, a', rfl, ha', rfl⟩,
            (edits_iff_sets hμ).2 ⟨_, a, rfl, ?_, ?_⟩⟩
          · rwa [Entries.get?_put_of_ne _ hne.symm]
          · rw [Entries.put_comm _ hne]
      | cons name q =>
          -- the upper edit leaves the nested blocks alone, and the lower one the attributes
          obtain ⟨_, blocks, ⟨⟩, hblocks, rfl⟩ := h'
          exact ⟨{ b₀ with blocks := blocks }, ⟨b₀, blocks, rfl, hblocks, rfl⟩,
            (edits_iff_sets hμ).2 ⟨_, a, rfl, ha, rfl⟩⟩
  | cons name p ih =>
      obtain ⟨b₀, blocks, rfl, hblocks, rfl⟩ := h
      cases q with
      | nil =>
          have hν : ν.isOnBlock = false := hapart.right List.nil_prefix
          obtain ⟨_, a, ⟨⟩, ha, rfl⟩ := (edits_iff_sets hν).1 h'
          exact ⟨{ b₀ with attributes := b₀.attributes.put ν.name a },
            (edits_iff_sets hν).2 ⟨b₀, a, rfl, ha, rfl⟩, _, blocks, rfl, hblocks, rfl⟩
      | cons name' q =>
          obtain ⟨_, blocks', ⟨⟩, hblocks', rfl⟩ := h'
          obtain ⟨others, hν, hμ⟩ := hblocks.swap hblocks' fun hname o b b' hb hb' => by
            subst hname
            exact ih hapart.of_cons hb hb'
          exact ⟨{ b₀ with blocks := others }, ⟨b₀, others, rfl, hν, rfl⟩,
            _, blocks', rfl, hμ, rfl⟩

end Mutation

theorem BlockMap.EditedAt.swap {μ ν : Mutation} {p q : List String}
    (hapart : Mutation.Apart μ ν p q) {m m₁ m₂ : BlockMap} (h : EditedAt μ p m m₁)
    (h' : EditedAt ν q m₁ m₂) : ∃ n, EditedAt ν q m n ∧ EditedAt μ p n m₂ := by
  cases p with
  | nil => exact h.elim
  | cons name p =>
      cases q with
      | nil => exact h'.elim
      | cons name' q =>
          refine ChangedAt.swap h h' fun hname o b b' hb hb' => ?_
          subst hname
          exact Mutation.EditsAt.swap hapart.of_cons hb hb'

namespace Delta

/-- The attribute or block that is changed, by its path. -/
def element (d : Delta) : List String := d.target ++ [d.mutation.name]

/-- The deltas change different attributes, or attributes and a block that they are not in, or
blocks neither of which is in the other or is the other. -/
def Independent (d d' : Delta) : Prop :=
  match d.mutation.isOnBlock, d'.mutation.isOnBlock with
  | false, false => d.element ≠ d'.element
  | true, false => ¬d.element <+: d'.target
  | false, true => ¬d'.element <+: d.target
  | true, true => ¬d.element <+: d'.element ∧ ¬d'.element <+: d.element

variable {d d' : Delta}

theorem Independent.symm (h : d.Independent d') : d'.Independent d := by
  unfold Independent at h ⊢
  cases hd : d.mutation.isOnBlock <;> cases hd' : d'.mutation.isOnBlock <;>
    simp only [hd, hd'] at h ⊢
  · exact h.symm
  · exact h
  · exact h
  · exact h.symm

theorem place_eq_element (h : d.mutation.isOnBlock = true) : d.place = d.element := by
  rw [place, Mutation.place, if_pos h, element]

theorem place_eq_target (h : d.mutation.isOnBlock = false) : d.place = d.target := by
  rw [place, Mutation.place, if_neg (by simp [h])]

theorem Independent.apart (h : d.Independent d') :
    Mutation.Apart d.mutation d'.mutation d.place d'.place := by
  unfold Independent at h
  cases hd : d.mutation.isOnBlock <;> cases hd' : d'.mutation.isOnBlock <;>
    simp only [hd, hd'] at h
  · rw [place_eq_target hd, place_eq_target hd']
    refine ⟨fun _ => hd, fun _ => hd', fun htarget hname => h ?_⟩
    rw [element, element, htarget, hname]
  · rw [place_eq_target hd, place_eq_element hd']
    exact ⟨fun _ => hd, fun hpre => absurd hpre h, fun heq => absurd (heq ▸ List.prefix_rfl) h⟩
  · rw [place_eq_element hd, place_eq_target hd']
    exact ⟨fun hpre => absurd hpre h, fun _ => hd', fun heq => absurd (heq ▸ List.prefix_rfl) h⟩
  · rw [place_eq_element hd, place_eq_element hd']
    exact ⟨fun hpre => absurd hpre h.1, fun hpre => absurd hpre h.2,
      fun heq => absurd (heq ▸ List.prefix_rfl) h.1⟩

/-- The second of two deltas that do not meet can be applied first. -/
theorem apply_swap (h : d.Independent d') {t w u : SchemaTree} (hd : d.apply t = .ok w)
    (hd' : d'.apply w = .ok u) : ∃ w', d'.apply t = .ok w' ∧ d.apply w' = .ok u := by
  rw [apply_eq_ok_iff_editedAt] at hd hd'
  obtain ⟨m, hm, hu⟩ := hd.swap h.apart hd'
  exact ⟨⟨m⟩, apply_eq_ok_iff_editedAt.2 hm, apply_eq_ok_iff_editedAt.2 hu⟩

/-- Deltas that do not meet lead in both orders to the same tree, or in neither order to any. -/
theorem apply_comm (h : d.Independent d') (t u : SchemaTree) :
    (∃ w, d.apply t = .ok w ∧ d'.apply w = .ok u) ↔
      ∃ w, d'.apply t = .ok w ∧ d.apply w = .ok u :=
  ⟨fun ⟨_, hd, hd'⟩ => apply_swap h hd hd', fun ⟨_, hd', hd⟩ => apply_swap h.symm hd' hd⟩

/-- The block `terraform` with the attribute `required_version`. -/
def versionAttribute : SchemaTree :=
  SchemaTree.empty.withBlock "terraform"
    (BlockSchema.bare.withAttribute "required_version" (.optional [.literal .string]))

def attributeRemoved : Delta :=
  ⟨.release 1 0 0, ["terraform"], .removeAttribute "required_version"⟩

def namesakeAdded : Delta :=
  ⟨.release 1 0 0, ["terraform"], .addBlock "required_version" .bare⟩

/-- An attribute goes from a block and a nested block of the same name comes, in either order. -/
theorem apply_comm_namesake :
    attributeRemoved.Independent namesakeAdded ∧
      (∃ w, attributeRemoved.apply versionAttribute = .ok w ∧ namesakeAdded.apply w =
        .ok (SchemaTree.empty.withBlock "terraform"
          (BlockSchema.bare.withBlock "required_version" .bare))) ∧
      ∃ w, namesakeAdded.apply versionAttribute = .ok w ∧ attributeRemoved.apply w =
        .ok (SchemaTree.empty.withBlock "terraform"
          (BlockSchema.bare.withBlock "required_version" .bare)) := by
  have hind : attributeRemoved.Independent namesakeAdded := by
    change ¬["terraform", "required_version"] <+: ["terraform"]
    decide
  have hfirst : ∃ w, attributeRemoved.apply versionAttribute = .ok w ∧ namesakeAdded.apply w =
      .ok (SchemaTree.empty.withBlock "terraform"
        (BlockSchema.bare.withBlock "required_version" .bare)) := ⟨_, rfl, rfl⟩
  exact ⟨hind, hfirst, (apply_comm hind _ _).1 hfirst⟩

/-- A run of deltas that do not meet can be made in any order. -/
theorem Leads.perm {ds es : List Delta} (hperm : ds.Perm es) (hind : ds.Pairwise Independent)
    {t u : SchemaTree} (h : Leads ds t u) : Leads es t u := by
  induction hperm generalizing t with
  | nil => exact h
  | cons d _ ih =>
      obtain _ | ⟨hd, h⟩ := h
      exact .cons hd (ih hind.of_cons h)
  | swap d d' ds =>
      obtain _ | ⟨hd', _ | ⟨hd, h⟩⟩ := h
      have hmeet : d'.Independent d := List.rel_of_pairwise_cons hind List.mem_cons_self
      obtain ⟨w, hw, hu⟩ := apply_swap hmeet hd' hd
      exact .cons hw (.cons hu h)
  | trans hperm _ ih ih' => exact ih' (hperm.pairwise hind Independent.symm) (ih hind h)

theorem Leads.flatMap_perm {α : Type} {f g : α → List Delta} {cs : List α}
    (hperm : ∀ c ∈ cs, (f c).Perm (g c)) (hind : ∀ c ∈ cs, (f c).Pairwise Independent)
    {t u : SchemaTree} (h : Leads (cs.flatMap f) t u) : Leads (cs.flatMap g) t u := by
  induction cs generalizing t with
  | nil => exact h
  | cons c cs ih =>
      rw [List.forall_mem_cons] at hperm hind
      obtain ⟨w, hw, hu⟩ := leads_append.1 h
      exact leads_append.2 ⟨w, hw.perm hperm.1 hind.1, ih hperm.2 hind.2 hu⟩

end Delta

namespace Evolution

open Delta (Leads Independent)

theorem leads_deltasAt_perm (v₀ : Version) (base : SchemaTree) {ds es : List Delta}
    (hperm : ds.Perm es)
    (hind : ∀ core, (ds.filter fun d => d.threshold.core = core).Pairwise Independent)
    (core : CoreVersion) {t u : SchemaTree}
    (h : Leads ((ofDeltas v₀ base ds).deltasAt core) t u) :
    Leads ((ofDeltas v₀ base es).deltasAt core) t u := by
  obtain ⟨cores, hcores, hall⟩ : ∃ cores : List CoreVersion, cores.Pairwise (· < ·) ∧
      ∀ d ∈ ds, d.threshold.core ∈ cores :=
    ⟨_, pairwise_thresholds (ofDeltas v₀ base ds),
      fun d hd => mem_thresholds.2 ⟨d, List.mem_mergeSort.2 hd, rfl⟩⟩
  have hds : (ofDeltas v₀ base ds).deltas =
      cores.flatMap fun c => ds.filter fun d => d.threshold.core = c :=
    mergeSort_eq_flatMap hcores hall
  have hes : (ofDeltas v₀ base es).deltas =
      cores.flatMap fun c => es.filter fun d => d.threshold.core = c :=
    mergeSort_eq_flatMap hcores fun d hd => hall d (hperm.mem_iff.2 hd)
  rw [deltasAt_eq_filter, hds, List.filter_flatMap] at h
  rw [deltasAt_eq_filter, hes, List.filter_flatMap]
  exact h.flatMap_perm (fun c _ => (hperm.filter _).filter _) fun c _ => (hind c).filter _

/-- The order in which deltas are given makes no difference to the schemas if those of each
threshold do not meet. -/
theorem build_perm (v₀ : Version) (base : SchemaTree) {ds es : List Delta} (hperm : ds.Perm es)
    (hind : ∀ core, (ds.filter fun d => d.threshold.core = core).Pairwise Independent)
    (v : Version) (t : SchemaTree) :
    (ofDeltas v₀ base ds).build v = .ok t ↔ (ofDeltas v₀ base es).build v = .ok t := by
  have hind' : ∀ core, (es.filter fun d => d.threshold.core = core).Pairwise Independent :=
    fun core => (hperm.filter _).pairwise (hind core) Independent.symm
  rw [build_eq_ok_iff, build_eq_ok_iff]
  exact and_congr_left' ⟨leads_deltasAt_perm v₀ base hperm hind v.core,
    leads_deltasAt_perm v₀ base hperm.symm hind' v.core⟩

end Evolution

end ConfigSchema
