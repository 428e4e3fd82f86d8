import ConfigSchema.CommandLine.Run
import Mathlib.Data.List.Dedup
import Mathlib.Data.List.Induction

/-!
Caches answer as if nothing was kept. A cache holds one tree for each core version that was built
since it was last cleared, and each tree is what the evolution gives for all versions of that core.
-/

namespace ConfigSchema

theorem Evolution.build_congr (e : Evolution) {v w : Version} (h : v.core = w.core) :
    e.build v = e.build w := by
  simp only [build, h]

namespace SchemaCache

/-- What can be asked of a cache. -/
inductive Call
  | get (v : Version)
  | clear

namespace Call

def isGet : Call → Bool
  | get _ => true
  | clear => false

/-- What the evolution itself gives for a call. -/
def built? (e : Evolution) : Call → Option (Except SchemaError SchemaTree)
  | get v => some (e.build v)
  | clear => none

/-- The core version of which a call asks for a tree, if there is one. -/
def core? (e : Evolution) : Call → Option CoreVersion
  | get v =>
    match e.build v with
    | .ok _ => some v.core
    | .error _ => none
  | clear => none

theorem core?_of_ok {e : Evolution} {v : Version} {tree : SchemaTree}
    (h : e.build v = .ok tree) : core? e (get v) = some v.core := by
  simp [core?, h]

theorem core?_of_error {e : Evolution} {v : Version} {err : SchemaError}
    (h : e.build v = .error err) : core? e (get v) = none := by
  simp [core?, h]

end Call

/-- The tree that a cache gives for a version. -/
def answer (c : SchemaCache) (v : Version) : Except SchemaError SchemaTree :=
  (c.get v).1.map (·.tree)

/-- The cache after a call. -/
def step (c : SchemaCache) : Call → SchemaCache
  | .get v => (c.get v).2
  | .clear => c.clear

/-- The cache after some calls, one after another. -/
def after (c : SchemaCache) (calls : List Call) : SchemaCache := calls.foldl step c

/-- The answers to some calls, one after another. -/
def answers (c : SchemaCache) : List Call → List (Except SchemaError SchemaTree)
  | [] => []
  | .get v :: calls => c.answer v :: (c.get v).2.answers calls
  | .clear :: calls => c.clear.answers calls

/-- The core versions of which a tree was asked for and built since the cache was last cleared. -/
def coresSinceClear (e : Evolution) (calls : List Call) : List CoreVersion :=
  (calls.reverse.takeWhile Call.isGet).filterMap (Call.core? e)

/-- The cache holds what the evolution gives for each of the core versions, and nothing else. -/
structure Holds (c : SchemaCache) (e : Evolution) (cores : List CoreVersion) : Prop where
  evolution : c.evolution = e
  built : ∀ t ∈ c.entries, ∀ v : Version, v.core = t.core → e.build v = .ok t.tree
  nodup : (c.entries.map (·.core)).Nodup
  mem_iff : ∀ core, core ∈ c.entries.map (·.core) ↔ core ∈ cores

variable {c : SchemaCache} {e : Evolution} {cores : List CoreVersion}

/-- A tree is found, or cannot be built, or is built and kept. -/
theorem get_cases (c : SchemaCache) (v : Version) :
    (∃ t ∈ c.entries, t.core = v.core ∧ c.get v = (.ok t, c)) ∨
      (∃ err, c.evolution.build v = .error err ∧ c.get v = (.error err, c)) ∨
      (v.core ∉ c.entries.map (·.core) ∧ ∃ tree, c.evolution.build v = .ok tree ∧
        c.get v = (.ok ⟨v.core, c.next, tree⟩,
          { c with entries := ⟨v.core, c.next, tree⟩ :: c.entries, next := c.next + 1 })) := by
  unfold get
  cases hf : c.find? v.core with
  | some t =>
    have hcore : t.core = v.core := by simpa using List.find?_some hf
    exact .inl ⟨t, List.mem_of_find?_eq_some hf, hcore, rfl⟩
  | none =>
    right
    cases hb : c.evolution.build v with
    | error err => exact .inl ⟨err, rfl, rfl⟩
    | ok tree =>
      refine .inr ⟨?_, tree, rfl, rfl⟩
      intro hmem
      obtain ⟨t, ht, hcore⟩ := List.mem_map.1 hmem
      exact List.find?_eq_none.1 hf t ht (by simpa using hcore)

theorem holds_empty (e : Evolution) : (empty e).Holds e [] :=
  ⟨rfl, by simp [empty], by simp [empty], by simp [empty]⟩

theorem Holds.clear (h : c.Holds e cores) : c.clear.Holds e [] :=
  ⟨h.evolution, by simp [SchemaCache.clear], by simp [SchemaCache.clear],
    by simp [SchemaCache.clear]⟩

theorem Holds.answer_eq (h : c.Holds e cores) (v : Version) : c.answer v = e.build v := by
  unfold answer
  rcases c.get_cases v with ⟨t, ht, hcore, hget⟩ | ⟨err, hb, hget⟩ | ⟨-, tree, hb, hget⟩
  · rw [hget, h.built t ht v hcore.symm]
    rfl
  · rw [hget, ← h.evolution, hb]
    rfl
  · rw [hget, ← h.evolution, hb]
    rfl

theorem Holds.get (h : c.Holds e cores) (v : Version) :
    (c.get v).2.Holds e ((Call.core? e (.get v)).toList ++ cores) := by
  rcases c.get_cases v with ⟨t, ht, hcore, hget⟩ | ⟨err, hb, hget⟩ | ⟨hnew, tree, hb, hget⟩
  · have hold : v.core ∈ cores := (h.mem_iff _).1 (List.mem_map.2 ⟨t, ht, hcore⟩)
    rw [hget, Call.core?_of_ok (h.built t ht v hcore.symm)]
    refine ⟨h.evolution, h.built, h.nodup, fun core => ?_⟩
    rw [h.mem_iff, Option.toList_some, List.singleton_append, List.mem_cons]
    exact ⟨.inr, fun hc => hc.elim (fun heq => heq ▸ hold) id⟩
  · rw [h.evolution] at hb
    rw [hget, Call.core?_of_error hb]
    exact h
  · rw [h.evolution] at hb
    rw [hget, Call.core?_of_ok hb]
    refine ⟨h.evolution, fun t ht w hw => ?_, List.nodup_cons.2 ⟨hnew, h.nodup⟩, fun core => ?_⟩
    · rcases List.mem_cons.1 ht with rfl | ht
      · rw [e.build_congr hw, hb]
      · exact h.built t ht w hw
    · rw [List.map_cons, Option.toList_some, List.singleton_append, List.mem_cons, List.mem_cons,
        h.mem_iff]

theorem Holds.size_eq (h : c.Holds e cores) : c.size = cores.dedup.length := by
  have hperm : (c.entries.map (·.core)).Perm cores.dedup :=
    (List.perm_ext_iff_of_nodup h.nodup (List.nodup_dedup cores)).2 fun core => by
      rw [h.mem_iff, List.mem_dedup]
  rw [← hperm.length_eq, List.length_map]
  rfl

theorem Holds.treeFor_eq (h : c.Holds e cores) (cached : Bool) (v : Version) :
    (c.treeFor cached v).1 = e.build v := by
  cases cached with
  | true => exact h.answer_eq v
  | false =>
    rw [← h.evolution]
    rfl

theorem Holds.treeFor (h : c.Holds e cores) (cached : Bool) (v : Version) :
    ∃ cores', (c.treeFor cached v).2.Holds e cores' := by
  cases cached with
  | true => exact ⟨_, h.get v⟩
  | false => exact ⟨cores, h⟩

theorem coresSinceClear_snoc_get (e : Evolution) (calls : List Call) (v : Version) :
    coresSinceClear e (calls ++ [.get v]) =
      (Call.core? e (.get v)).toList ++ coresSinceClear e calls := by
  unfold coresSinceClear
  rw [List.reverse_concat', List.takeWhile_cons]
  cases hc : Call.core? e (.get v) <;> simp [Call.isGet, hc]

theorem coresSinceClear_snoc_clear (e : Evolution) (calls : List Call) :
    coresSinceClear e (calls ++ [.clear]) = [] := by
  simp [coresSinceClear, Call.isGet]

/-- The run of a new cache, call by call. -/
theorem holds_after (e : Evolution) (calls : List Call) :
    ((empty e).after calls).Holds e (coresSinceClear e calls) := by
  induction calls using List.reverseRecOn with
  | nil => exact holds_empty e
  | append_singleton calls call ih =>
    rw [after, List.foldl_append, ← after]
    cases call with
    | get v =>
      rw [coresSinceClear_snoc_get]
      exact ih.get v
    | clear =>
      rw [coresSinceClear_snoc_clear]
      exact ih.clear

theorem Holds.answers_eq (h : c.Holds e cores) (calls : List Call) :
    c.answers calls = calls.filterMap (Call.built? e) := by
  induction calls generalizing c cores with
  | nil => rfl
  | cons call calls ih =>
    cases call with
    | get v =>
      rw [answers, h.answer_eq, ih (h.get v)]
      rfl
    | clear =>
      rw [answers, ih h.clear]
      rfl

theorem get_of_error {v : Version} {err : SchemaError} (h : (c.get v).1 = .error err) :
    (c.get v).2 = c := by
  rcases c.get_cases v with ⟨t, -, -, hget⟩ | ⟨_, -, hget⟩ | ⟨-, tree, -, hget⟩
  · rw [hget]
  · rw [hget]
  · rw [hget] at h
    cases h

/-- Whatever is asked of a new cache, every answer is what the evolution gives; a version without a
tree leaves the cache as it was; there are as many trees as core versions were built since the cache
was last cleared; and it makes no difference whether trees are taken from the cache. -/
theorem transparent (e : Evolution) (calls : List Call) :
    (empty e).answers calls = calls.filterMap (Call.built? e) ∧
      ((empty e).after calls).size = (coresSinceClear e calls).dedup.length ∧
      ∀ v,
        (∀ err, (((empty e).after calls).get v).1 = .error err →
          (((empty e).after calls).get v).2 = (empty e).after calls) ∧
        ∀ cached, (((empty e).after calls).treeFor cached v).1 = e.build v := by
  have h := holds_after e calls
  exact ⟨(holds_empty e).answers_eq calls, h.size_eq,
    fun v => ⟨fun _ => get_of_error, fun cached => h.treeFor_eq cached v⟩⟩

end SchemaCache

namespace Invocation

/-- The changes between two versions are those between the trees of the evolution. -/
theorem changesText_eq (settings : ToolSettings) (compact strict : Bool) (source target : String) :
    changesText settings compact strict source target =
      ((do
        let old ← Builtin.evolution.buildText source
        let new ← Builtin.evolution.buildText target
        let report := DiffReport.compare old new (strict || settings.strict)
        return (report, json compact report.document)) :
        Except SchemaError (DiffReport × String)) := by
  have hempty := SchemaCache.holds_empty Builtin.evolution
  unfold changesText Evolution.buildText
  cases Version.ofLanguageText source with
  | error err => rfl
  | ok v =>
    obtain ⟨cores, h⟩ := hempty.treeFor settings.cacheEnabled v
    have hold := hempty.treeFor_eq settings.cacheEnabled v
    rcases hc : (SchemaCache.empty Builtin.evolution).treeFor settings.cacheEnabled v
      with ⟨old, cache⟩
    rw [hc] at h hold
    simp only [bind, Except.bind, hc]
    rw [← hold]
    cases old with
    | error err => rfl
    | ok old =>
      cases Version.ofLanguageText target with
      | error err => rfl
      | ok w => simp only [h.treeFor_eq]

/-- The output does not depend on the use of the cache. -/
theorem outcome_cacheEnabled (i : Invocation) (settings : ToolSettings) (cached : Bool) :
    i.outcome { settings with cacheEnabled := cached } = i.outcome settings := by
  have hempty := SchemaCache.holds_empty Builtin.evolution
  unfold outcome
  cases i.command with
  | schema version block =>
    simp only [hempty.treeFor_eq]
    rfl
  | changes source target strict => simp only [changesText_eq]
  | fingerprint version =>
    simp only [hempty.treeFor_eq]
    rfl

end Invocation

end ConfigSchema
