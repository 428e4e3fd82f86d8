import ConfigSchema.Proofs.Diff.Exactness
import ConfigSchema.Proofs.Text.ByteOrder
import Mathlib.Data.List.Pairwise

/-!
The order of the paths in a report. Of a block, what is about the block itself comes first, then its
listed attributes, its open rule and its nested blocks with all that they hold; among attributes and
among nested blocks, what the old schema has comes first. Each of these groups is ascending, but one
group may come before another that its paths stand behind. Main statement: the paths of a report
ascend just when at every block that both schemas have the groups do.
-/

namespace ConfigSchema

open AttributeSchema SchemaChange

/-- A list in an order is related along the list just when it is so along the order. -/
theorem pairwise_iff_of_asymm {κ : Type} {R Q : κ → κ → Prop} (hasymm : ∀ a b, R a b → ¬R b a)
    {l : List κ} (h : l.Pairwise R) : l.Pairwise Q ↔ ∀ a ∈ l, ∀ b ∈ l, R a b → Q a b := by
  constructor
  · intro hQ
    -- two entries stand in one of two ways, so what is said of both ways holds wherever they stand
    have hboth : l.Pairwise fun a b => (R a b → Q a b) ∧ (R b a → Q b a) :=
      h.imp₂ (fun a b hab hq => ⟨fun _ => hq, fun hba => absurd hba (hasymm a b hab)⟩) hQ
    have hsymm : Std.Symm fun a b => (R a b → Q a b) ∧ (R b a → Q b a) := ⟨fun _ _ => And.symm⟩
    have hself : ∀ a ∈ l, (R a a → Q a a) ∧ (R a a → Q a a) := fun a _ =>
      ⟨fun haa => absurd haa (hasymm a a haa), fun haa => absurd haa (hasymm a a haa)⟩
    exact fun a ha b hb => (hboth.forall_of_forall hself ha hb).1
  · exact fun hQ => h.imp_of_mem fun ha hb hab => hQ _ ha _ hb hab

namespace Entries

variable {α γ : Type} {kept : String → α → α → List γ} {removed added : String → α → γ}
  {old new : SortedMap String α}

/-- One key is reported on before another: the old map has it and not the other one, or has both or
neither of them and it is the smaller one. -/
def Precedes (old : SortedMap String α) (k k' : String) : Prop :=
  (old.contains k = true ∧ old.contains k' = false) ∨ (old.contains k = old.contains k' ∧ k < k')

theorem Precedes.asymm {k k' : String} (h : old.Precedes k k') : ¬old.Precedes k' k := by
  rintro (⟨hk', hk⟩ | ⟨he', hlt'⟩)
  · rcases h with ⟨hk₁, -⟩ | ⟨he, -⟩
    · simp [hk] at hk₁
    · simp [hk, hk'] at he
  · rcases h with ⟨hk, hk'⟩ | ⟨-, hlt⟩
    · simp [hk, hk'] at he'
    · exact String.lt_asymm hlt hlt'

/-- The keys in the order of the reports on them. -/
def reportedKeys (old new : SortedMap String α) : List String :=
  old.keys ++ new.keys.filter fun k => !old.contains k

theorem mem_reportedKeys_iff {k : String} :
    k ∈ reportedKeys old new ↔ old.contains k = true ∨ new.contains k = true := by
  rw [reportedKeys, List.mem_append, List.mem_filter, mem_keys_iff, mem_keys_iff, ← contains_iff,
    ← contains_iff]
  cases old.contains k <;> simp

theorem pairwise_reportedKeys (old new : SortedMap String α) :
    (reportedKeys old new).Pairwise old.Precedes := by
  have hascending : ∀ m : SortedMap String α, m.keys.Pairwise (· < ·) := fun m =>
    m.pairwise_keys.imp compare_lt_iff_lt.1
  have hold : ∀ k ∈ old.keys, old.contains k = true := fun k hk =>
    contains_iff.2 (mem_keys_iff.1 hk)
  have hnew : ∀ k ∈ new.keys.filter (fun k => !old.contains k), old.contains k = false :=
    fun k hk => by simpa using (List.mem_filter.1 hk).2
  refine List.pairwise_append.2 ⟨?_, ?_, fun k hk k' hk' => .inl ⟨hold k hk, hnew k' hk'⟩⟩
  · exact (hascending old).imp_of_mem fun hk hk' hlt =>
      .inr ⟨(hold _ hk).trans (hold _ hk').symm, hlt⟩
  · exact ((hascending new).filter _).imp_of_mem fun hk hk' hlt =>
      .inr ⟨(hnew _ hk).trans (hnew _ hk').symm, hlt⟩

/-- What is reported of one key. -/
def differencesAt (kept : String → α → α → List γ) (removed added : String → α → γ)
    (old new : SortedMap String α) (k : String) : List γ :=
  match old.get? k, new.get? k with
  | some v, some w => kept k v w
  | some v, none => [removed k v]
  | none, some w => [added k w]
  | none, none => []

theorem differences_eq_flatMap (old new : SortedMap String α) :
    differences kept removed added old new =
      (reportedKeys old new).flatMap (differencesAt kept removed added old new) := by
  rw [differences, reportedKeys, List.flatMap_append, keys_eq_map_toList, keys_eq_map_toList,
    List.flatMap_map, List.filter_map, List.flatMap_map, List.map_eq_flatMap]
  congr 1
  · refine List.flatMap_congr fun p hp => ?_
    rw [differencesAt, get?_eq_some_iff.2 hp]
    cases new.get? p.1 <;> rfl
  · refine List.flatMap_congr fun p hp => ?_
    obtain ⟨hp, hadded⟩ := List.mem_filter.1 hp
    have hold : old.get? p.1 = none := by simpa [contains] using hadded
    rw [differencesAt, get?_eq_some_iff.2 hp, hold]

theorem differencesAt_eq_nil {k : String} (h : k ∉ reportedKeys old new) :
    differencesAt kept removed added old new k = [] := by
  rw [mem_reportedKeys_iff, not_or, Bool.not_eq_true, Bool.not_eq_true, contains_eq_false_iff,
    contains_eq_false_iff] at h
  rw [differencesAt, h.1, h.2]

theorem forall_mem_differences_iff {Q : γ → Prop} :
    (∀ c ∈ differences kept removed added old new, Q c) ↔
      ∀ k, ∀ c ∈ differencesAt kept removed added old new k, Q c := by
  rw [differences_eq_flatMap]
  constructor
  · intro h k c hc
    by_cases hk : k ∈ reportedKeys old new
    · exact h c (List.mem_flatMap.2 ⟨k, hk, hc⟩)
    · rw [differencesAt_eq_nil hk] at hc
      cases hc
  · intro h c hc
    obtain ⟨k, -, hc⟩ := List.mem_flatMap.1 hc
    exact h k c hc

/-- The differences are related along the report just when those of each key are, and those of any
two keys in their order. -/
theorem pairwise_differences_iff {R : γ → γ → Prop} :
    (differences kept removed added old new).Pairwise R ↔
      (∀ k, (differencesAt kept removed added old new k).Pairwise R) ∧
        ∀ k k', old.Precedes k k' → ∀ c ∈ differencesAt kept removed added old new k,
          ∀ c' ∈ differencesAt kept removed added old new k', R c c' := by
  rw [differences_eq_flatMap, List.pairwise_flatMap,
    pairwise_iff_of_asymm (fun _ _ h => h.asymm) (pairwise_reportedKeys old new)]
  -- on other keys there is no report
  constructor
  · rintro ⟨hself, hcross⟩
    refine ⟨fun k => ?_, fun k k' hkk' c hc c' hc' => ?_⟩
    · by_cases hk : k ∈ reportedKeys old new
      · exact hself k hk
      · rw [differencesAt_eq_nil hk]
        exact .nil
    · by_cases hk : k ∈ reportedKeys old new
      · by_cases hk' : k' ∈ reportedKeys old new
        · exact hcross k hk k' hk' hkk' c hc c' hc'
        · rw [differencesAt_eq_nil hk'] at hc'
          cases hc'
      · rw [differencesAt_eq_nil hk] at hc
        cases hc
  · rintro ⟨hself, hcross⟩
    exact ⟨fun k _ => hself k, fun k _ k' _ => hcross k k'⟩

end Entries

namespace SchemaChange

theorem append_lt_append {s t t' : String} (h : t < t') : s ++ t < s ++ t' := by
  rw [String.lt_iff_toList_lt] at h ⊢
  rw [String.toList_append, String.toList_append]
  exact List.append_left_lt h

theorem append_le_append_iff {s t t' : String} : s ++ t ≤ s ++ t' ↔ t ≤ t' := by
  constructor
  · exact fun h => not_lt.1 fun hlt => not_lt.2 h (append_lt_append hlt)
  · intro h
    rcases h.lt_or_eq with h | rfl
    · exact (append_lt_append h).le
    · exact le_rfl

theorem empty_le (s : String) : "" ≤ s :=
  not_lt.1 fun h => List.not_lt_nil _ (String.lt_iff_toList_lt.1 h)

theorem le_append (s t : String) : s ≤ s ++ t := by
  have h : s ++ "" ≤ s ++ t := append_le_append_iff.2 (empty_le t)
  rwa [String.append_empty] at h

/-- Below one path, elements have the order of their names. -/
theorem joinPath_le_joinPath_iff {path name name' : String} :
    joinPath path name ≤ joinPath path name' ↔ name ≤ name' := by
  by_cases h : path = ""
  · simp [joinPath, h]
  · rw [joinPath_of_ne h, joinPath_of_ne h]
    exact append_le_append_iff

theorem le_path_of_isAtOrBelow {c : SchemaChange} {path : String} (h : c.IsAtOrBelow path) :
    path ≤ c.path := by
  rcases h with h | ⟨rest, h⟩
  · exact h.ge
  · rw [h, String.append_assoc]
    exact le_append path _

end SchemaChange

section Reports

variable {base : String} {cs : List SchemaChange} {P : ChangeKind × Site → Prop}

theorem Reports.forall_path_iff (h : Reports base cs P) {Q : String → Prop} :
    (∀ c ∈ cs, Q c.path) ↔ ∀ d, P d → Q (d.2.text base) := by
  obtain ⟨ds, -, hmem, hmap⟩ := h
  calc (∀ c ∈ cs, Q c.path)
      ↔ ∀ c ∈ cs.map fun c => (c.kind, c.path), Q c.2 := by simp only [List.forall_mem_map]
    _ ↔ ∀ d ∈ ds, Q (d.2.text base) := by rw [hmap, List.forall_mem_map]
    _ ↔ ∀ d, P d → Q (d.2.text base) := forall_congr' fun d => by rw [hmem]

theorem Reports.forall_path_le_iff {cs' : List SchemaChange} {P' : ChangeKind × Site → Prop}
    (h : Reports base cs P) (h' : Reports base cs' P') :
    (∀ c ∈ cs, ∀ c' ∈ cs', c.path ≤ c'.path) ↔
      ∀ d d', P d → P' d' → d.2.text base ≤ d'.2.text base := by
  rw [h.forall_path_iff (Q := fun p => ∀ c' ∈ cs', p ≤ c'.path)]
  constructor
  · exact fun hle d d' hd hd' => h'.forall_path_iff.1 (hle d hd) d' hd'
  · exact fun hle d hd => h'.forall_path_iff.2 fun d' hd' => hle d d' hd hd'

/-- What is reported of one name, from what is reported of it in each of the three cases. -/
theorem reports_differencesAt {α : Type} {kept : String → α → α → List SchemaChange}
    {removed added : String → α → SchemaChange} {old new : SortedMap String α}
    {P : Option α → Option α → ChangeKind × Site → Prop} (name : String)
    (hkept : ∀ v w, Reports base (kept name v w) (P (some v) (some w)))
    (hremoved : ∀ v, Reports base [removed name v] (P (some v) none))
    (hadded : ∀ w, Reports base [added name w] (P none (some w)))
    (hnone : ∀ d, ¬P none none d) :
    Reports base (Entries.differencesAt kept removed added old new name)
      (P (old.get? name) (new.get? name)) := by
  unfold Entries.differencesAt
  cases old.get? name with
  | some v =>
      cases new.get? name with
      | some w => exact hkept v w
      | none => exact hremoved v
  | none =>
      cases new.get? name with
      | some w => exact hadded w
      | none => exact reports_nil.congr fun d => (iff_false_intro (hnone d)).symm

end Reports

/-- The paths of the changes ascend. -/
def InPathOrder (cs : List SchemaChange) : Prop := cs.Pairwise fun c c' => c.path ≤ c'.path

theorem inPathOrder_of_path_eq {cs : List SchemaChange} {path : String}
    (h : ∀ c ∈ cs, c.path = path) : InPathOrder cs :=
  List.pairwise_of_forall_mem_list fun c hc c' hc' => ((h c hc).trans (h c' hc').symm).le

theorem inPathOrder_append_iff {cs cs' : List SchemaChange} :
    InPathOrder (cs ++ cs') ↔
      InPathOrder cs ∧ InPathOrder cs' ∧ ∀ c ∈ cs, ∀ c' ∈ cs', c.path ≤ c'.path :=
  List.pairwise_append

namespace BlockSchema

/-- The groups in which the differences of two blocks are reported ascend: no path of one group
stands behind one of a later group. -/
structure GroupsAscend (b b' : BlockSchema) (path : String) : Prop where
  /-- Listed attributes that are new come after those that have changed or are gone. -/
  attributes (name name' : String) (kind : ChangeKind) (a' : AttributeSchema) :
    b.attributes.contains name = true →
    RuleDiffers (b.attributes.get? name) (b'.attributes.get? name) kind →
    b.attributes.get? name' = none → b'.attributes.get? name' = some a' → name ≤ name'
  /-- The open rule, which is reported as `*`, comes after the listed attributes. -/
  openRule (name : String) (kind kind' : ChangeKind) :
    RuleDiffers (b.attributes.get? name) (b'.attributes.get? name) kind →
    RuleDiffers b.openRule b'.openRule kind' → name ≤ "*"
  /-- Nested blocks come after attributes and the open rule. -/
  rules (rule : Option String) (kind : ChangeKind) (name : String) (d : ChangeKind × Site) :
    RuleDiffers (b.rule? rule) (b'.rule? rule) kind →
    NestedDiffers name (b.blocks.get? name) (b'.blocks.get? name) d →
    (Site.mk [] (.rule rule)).text path ≤ d.2.text path
  /-- What nested blocks hold is as the blocks are, and new ones come after those that have changed
  or are gone. -/
  nested (name name' : String) (d d' : ChangeKind × Site) : b.blocks.Precedes name name' →
    NestedDiffers name (b.blocks.get? name) (b'.blocks.get? name) d →
    NestedDiffers name' (b.blocks.get? name') (b'.blocks.get? name') d' →
    d.2.text path ≤ d'.2.text path

variable {b b' : BlockSchema} {path : String}

theorem reports_attributeAt (name : String) :
    Reports path (Entries.differencesAt
      (fun name a a' => ofAttribute a a' (joinPath path name))
      (fun name _ => removedAttribute (joinPath path name))
      (fun name a => addedAttribute a (joinPath path name)) b.attributes b'.attributes name)
      fun d => d.2 = ⟨[], .rule (some name)⟩ ∧
        RuleDiffers (b.attributes.get? name) (b'.attributes.get? name) d.1 :=
  reports_differencesAt (P := fun a a' d => d.2 = ⟨[], .rule (some name)⟩ ∧ RuleDiffers a a' d.1)
    name (fun a a' => reports_ofAttribute a a' rfl)
    (fun _ => reports_rule rfl fun _ => ruleDiffers_none_right)
    (fun _ => reports_rule rfl fun _ => ruleDiffers_none_left) (by rintro d ⟨-, ⟨⟩⟩)

theorem reports_nestedAt (name : String) :
    Reports path (Entries.differencesAt
      (fun name n n' => n.changes n' (joinPath path name))
      (fun name _ => removedBlock (joinPath path name))
      (fun name _ => addedBlock (joinPath path name)) b.blocks b'.blocks name)
      (NestedDiffers name (b.blocks.get? name) (b'.blocks.get? name)) :=
  reports_differencesAt (P := NestedDiffers name) name
    (fun n n' => (reports_changes n n' _).under.congr fun _ => nestedDiffers_some_some.symm)
    (fun _ => (reports_singleton rfl).congr fun _ => nestedDiffers_none_right.symm)
    (fun _ => (reports_singleton rfl).congr fun _ => nestedDiffers_none_left.symm) (by rintro d ⟨⟩)

/-- The attributes ascend just when the new ones are behind the others. -/
theorem inPathOrder_ofAttributes_iff :
    InPathOrder (ofAttributes b.attributes b'.attributes path) ↔
      ∀ name name' kind a', b.attributes.contains name = true →
        RuleDiffers (b.attributes.get? name) (b'.attributes.get? name) kind →
        b.attributes.get? name' = none → b'.attributes.get? name' = some a' → name ≤ name' := by
  rw [InPathOrder, ofAttributes_eq_differences, Entries.pairwise_differences_iff]
  -- what is reported of one attribute is all at its path
  refine (and_iff_right fun name => inPathOrder_of_path_eq <|
    (reports_attributeAt name).forall_path_iff (Q := fun p => p = joinPath path name) |>.2
      fun d hd => by rw [hd.1]; rfl).trans ?_
  simp only [(reports_attributeAt _).forall_path_le_iff (reports_attributeAt _)]
  constructor
  · intro h name name' kind a' hname hkind hold hnew
    have hdiffers : RuleDiffers (b.attributes.get? name') (b'.attributes.get? name')
        .attributeAdded := by
      rw [hold, hnew]
      exact .added a'
    exact joinPath_le_joinPath_iff.1 <| h name name'
      (.inl ⟨hname, Entries.contains_eq_false_iff.2 hold⟩) (kind, ⟨[], .rule (some name)⟩)
      (.attributeAdded, ⟨[], .rule (some name')⟩) ⟨rfl, hkind⟩ ⟨rfl, hdiffers⟩
  · rintro h name name' hprecedes ⟨kind, s⟩ ⟨kind', s'⟩ ⟨rfl, hkind⟩ ⟨rfl, hkind'⟩
    refine joinPath_le_joinPath_iff.2 ?_
    rcases hprecedes with ⟨hname, hname'⟩ | ⟨-, hlt⟩
    · -- a name that the old block has not differs only if the new one has it
      rw [Entries.contains_eq_false_iff] at hname'
      dsimp only at hkind'
      rw [hname'] at hkind'
      cases hnew : b'.attributes.get? name' with
      | none =>
          rw [hnew] at hkind'
          cases hkind'
      | some a' => exact h name name' kind a' hname hkind hname' hnew
    · exact hlt.le

/-- What is about the block itself is reported at its path, and all else below it. -/
theorem path_le_of_mem_changes {c : SchemaChange} (hc : c ∈ b.changes b' path) :
    path ≤ c.path := by
  by_cases h : path = ""
  · rw [h]
    exact empty_le c.path
  · exact le_path_of_isAtOrBelow (isAtOrBelow_of_mem_changes h hc)

theorem exists_ofBlock_eq_append (b b' : BlockSchema) (path : String) :
    ∃ own : List SchemaChange, (∀ c ∈ own, c.path = path) ∧
      ofBlock b b' path = own ++ (ofAttributes b.attributes b'.attributes path ++
        ofOpenRule b.openRule b'.openRule path) := by
  refine ⟨_, ?_, by rw [ofBlock, List.append_assoc]⟩
  intro c hc
  simp only [documentation, List.mem_append, List.mem_ite_nil_left, List.mem_singleton] at hc
  rcases hc with ((⟨-, rfl⟩ | ⟨-, rfl⟩) | ⟨-, rfl⟩) | ⟨-, rfl⟩ <;> rfl

/-- Attributes and open rule ascend just when the attributes do and none is behind the open rule. -/
theorem inPathOrder_rules_iff :
    InPathOrder (ofAttributes b.attributes b'.attributes path ++
        ofOpenRule b.openRule b'.openRule path) ↔
      InPathOrder (ofAttributes b.attributes b'.attributes path) ∧ ∀ name kind kind',
        RuleDiffers (b.attributes.get? name) (b'.attributes.get? name) kind →
        RuleDiffers b.openRule b'.openRule kind' → name ≤ "*" := by
  have hrule : InPathOrder (ofOpenRule b.openRule b'.openRule path) :=
    inPathOrder_of_path_eq fun _ hc => path_of_mem_ofOpenRule hc
  rw [inPathOrder_append_iff, and_iff_right hrule,
    (reports_ofAttributes b.attributes b'.attributes).forall_path_le_iff
      (reports_ofOpenRule b.openRule b'.openRule)]
  refine and_congr_right fun _ => ⟨fun h name kind kind' hname hrule => ?_, ?_⟩
  · exact joinPath_le_joinPath_iff.1 <|
      h (kind, ⟨[], .rule (some name)⟩) (kind', ⟨[], .rule none⟩) ⟨name, rfl, hname⟩ ⟨rfl, hrule⟩
  · rintro h ⟨kind, s⟩ ⟨kind', s'⟩ ⟨name, rfl, hname⟩ ⟨rfl, hrule⟩
    exact joinPath_le_joinPath_iff.2 (h name kind kind' hname hrule)

/-- Nested blocks come after the rules just when each of their differences does. -/
theorem rules_le_nested_iff :
    (∀ c ∈ ofAttributes b.attributes b'.attributes path ++
        ofOpenRule b.openRule b'.openRule path,
      ∀ c' ∈ BlockMap.changes b.blocks b'.blocks path, c.path ≤ c'.path) ↔
      ∀ rule kind name d, RuleDiffers (b.rule? rule) (b'.rule? rule) kind →
        NestedDiffers name (b.blocks.get? name) (b'.blocks.get? name) d →
        (Site.mk [] (.rule rule)).text path ≤ d.2.text path := by
  rw [BlockMap.changes_eq_differences]
  constructor
  · intro h rule kind name d hkind hd
    have hcross := (reports_rules b b').forall_path_le_iff (reports_nestedAt name) |>.1
      fun c hc => Entries.forall_mem_differences_iff.1 (h c hc) name
    exact hcross (kind, ⟨[], .rule rule⟩) d ⟨rule, rfl, hkind⟩ hd
  · intro h c hc
    refine Entries.forall_mem_differences_iff.2 fun name => ?_
    refine (reports_rules b b').forall_path_le_iff (reports_nestedAt name) |>.2 ?_ c hc
    rintro ⟨kind, s⟩ d ⟨rule, rfl, hkind⟩ hd
    exact h rule kind name d hkind hd

/-- Nested blocks ascend just when each of them does, and any two of them in their order. -/
theorem inPathOrder_nested_iff :
    InPathOrder (BlockMap.changes b.blocks b'.blocks path) ↔
      (∀ name n n', b.blocks.get? name = some n → b'.blocks.get? name = some n' →
        InPathOrder (n.changes n' (joinPath path name))) ∧
      ∀ name name' d d', b.blocks.Precedes name name' →
        NestedDiffers name (b.blocks.get? name) (b'.blocks.get? name) d →
        NestedDiffers name' (b.blocks.get? name') (b'.blocks.get? name') d' →
        d.2.text path ≤ d'.2.text path := by
  rw [InPathOrder, BlockMap.changes_eq_differences, Entries.pairwise_differences_iff]
  simp only [(reports_nestedAt _).forall_path_le_iff (reports_nestedAt _)]
  refine and_congr ⟨fun h name n n' hn hn' => ?_, fun h name => ?_⟩
    ⟨fun h name name' d d' hprecedes => h name name' hprecedes d d',
      fun h name name' hprecedes d d' => h name name' d d' hprecedes⟩
  · have hname := h name
    rw [Entries.differencesAt, hn, hn'] at hname
    exact hname
  · unfold Entries.differencesAt
    cases hn : b.blocks.get? name with
    | some n =>
        cases hn' : b'.blocks.get? name with
        | some n' => exact h name n n' hn hn'
        | none => exact List.pairwise_singleton ..
    | none =>
        cases b'.blocks.get? name with
        | some n' => exact List.pairwise_singleton ..
        | none => exact .nil

/-- The report on two blocks ascends just when the groups do, and the reports on the nested blocks
that both have. -/
theorem inPathOrder_changes_step : InPathOrder (b.changes b' path) ↔
    b.GroupsAscend b' path ∧ ∀ name n n', b.blocks.get? name = some n →
      b'.blocks.get? name = some n' → InPathOrder (n.changes n' (joinPath path name)) := by
  have hbelow : ∀ c ∈ b.changes b' path, path ≤ c.path := fun c => path_le_of_mem_changes
  obtain ⟨own, hown, hblock⟩ := exists_ofBlock_eq_append b b' path
  rw [changes_eq_append, hblock, List.append_assoc] at hbelow ⊢
  -- what is about the block itself never stands behind anything
  rw [inPathOrder_append_iff, and_iff_right (inPathOrder_of_path_eq hown), and_iff_left
    (fun c hc c' hc' => (hown c hc).trans_le (hbelow c' (List.mem_append_right _ hc'))),
    inPathOrder_append_iff, inPathOrder_rules_iff, inPathOrder_ofAttributes_iff,
    rules_le_nested_iff, inPathOrder_nested_iff]
  constructor
  · rintro ⟨⟨hattributes, hrule⟩, ⟨hwithin, hnested⟩, hrules⟩
    exact ⟨⟨hattributes, hrule, hrules, hnested⟩, hwithin⟩
  · rintro ⟨⟨hattributes, hrule, hrules, hnested⟩, hwithin⟩
    exact ⟨⟨hattributes, hrule⟩, ⟨hwithin, hnested⟩, hrules⟩

/-- The report on two blocks ascends just when the groups do at every path. -/
theorem inPathOrder_changes_iff (b b' : BlockSchema) (path : String) :
    InPathOrder (b.changes b' path) ↔ ∀ names n n', b.nestedAt? names = some n →
      b'.nestedAt? names = some n' → n.GroupsAscend n' (names.foldl joinPath path) := by
  induction b using induct generalizing b' path with
  | block b ih =>
      rw [inPathOrder_changes_step]
      constructor
      · rintro ⟨hgroups, hnested⟩ names n n' hn hn'
        cases names with
        | nil =>
            cases hn
            cases hn'
            exact hgroups
        | cons name names =>
            rw [nestedAt?_cons] at hn hn'
            obtain ⟨m, hm, hn⟩ := Option.bind_eq_some_iff.1 hn
            obtain ⟨m', hm', hn'⟩ := Option.bind_eq_some_iff.1 hn'
            exact (ih name m hm m' _).1 (hnested name m m' hm hm') names n n' hn hn'
      · intro h
        refine ⟨h [] b b' rfl rfl, fun name m m' hm hm' => (ih name m hm m' _).2 ?_⟩
        intro names n n' hn hn'
        refine h (name :: names) n n' ?_ ?_
        · rwa [nestedAt?_cons, hm]
        · rwa [nestedAt?_cons, hm']

end BlockSchema

namespace SchemaTree

/-- The paths of a report, compared by their bytes, ascend just when at every block that both trees
have the groups of its differences do. -/
theorem changes_ascend_iff (old new : SchemaTree) :
    ((old.changes new).map fun c => Text.bytes c.path).Pairwise (· ≤ ·) ↔
      ∀ names b b', old.root.nestedAt? names = some b → new.root.nestedAt? names = some b' →
        b.GroupsAscend b' (names.foldl joinPath "") := by
  simp only [List.pairwise_map, Text.bytes_le_bytes_iff]
  rw [changes_eq_root]
  exact BlockSchema.inPathOrder_changes_iff old.root new.root ""

/-- A block that takes the place of another one is reported last, whatever the names are. -/
theorem changes_descend_moduleForOutput :
    ((empty.withBlock "output" .bare).changes (empty.withBlock "module" .bare)).map (·.path) =
        ["output", "module"] ∧
      ¬(((empty.withBlock "output" .bare).changes (empty.withBlock "module" .bare)).map
        fun c => Text.bytes c.path).Pairwise (· ≤ ·) := by
  constructor <;> decide

end SchemaTree

end ConfigSchema
