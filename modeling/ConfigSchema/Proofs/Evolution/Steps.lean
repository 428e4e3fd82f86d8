import ConfigSchema.Proofs.Evolution.InForce

/-!
The schema as a function of the version. It changes at thresholds only: between two of them, and
before the first one, the same deltas are in force. So it is known for all versions from its values
at the thresholds.
-/

namespace ConfigSchema

namespace Evolution

/-- The last threshold that a version has reached. -/
structure LastReached (e : Evolution) (v t : Version) : Prop where
  mem : t ∈ e.thresholds
  reached : t.core ≤ v.core
  last : ∀ s ∈ e.thresholds, s.core ≤ v.core → s.core ≤ t.core

section DistinctThresholds

variable {ds : List Delta} {last : Option CoreVersion}

/-- The numbers seen last are skipped, and of all others the first threshold is kept. -/
theorem mem_distinctThresholds (h : Ascending ds)
    (hlast : ∀ c, last = some c → ∀ d ∈ ds, c ≤ d.threshold.core) {core : CoreVersion} :
    core ∈ (distinctThresholds last ds).map Version.core ↔
      last ≠ some core ∧ ∃ d ∈ ds, d.threshold.core = core := by
  induction ds generalizing last with
  | nil => simp [distinctThresholds]
  | cons d ds ih =>
      obtain ⟨hd, hds⟩ := List.pairwise_cons.1 h
      rw [distinctThresholds]
      split
      next hseen =>
        -- the skipped delta has the numbers seen last, which are left out on both sides
        rw [ih hds fun c hc e he => hlast c hc e (List.mem_cons_of_mem d he)]
        refine and_congr_right fun hne => ?_
        have hother : ¬d.threshold.core = core := fun e => hne (e ▸ hseen)
        simp [hother]
      next hnew =>
        rw [List.map_cons, List.mem_cons, ih hds fun c hc => Option.some.inj hc ▸ hd]
        constructor
        · rintro (rfl | ⟨hne, e, he, rfl⟩)
          · exact ⟨hnew, d, List.mem_cons_self, rfl⟩
          · -- numbers seen last cannot come back after higher ones
            refine ⟨fun hseen => hne ?_, e, List.mem_cons_of_mem d he, rfl⟩
            have hle := hlast _ hseen d List.mem_cons_self
            exact congrArg some (CoreVersion.le_antisymm (hd e he) hle)
        · rintro ⟨-, e, he, rfl⟩
          rcases List.mem_cons.1 he with rfl | he
          · exact .inl rfl
          · by_cases hcore : e.threshold.core = d.threshold.core
            · exact .inl hcore
            · exact .inr ⟨fun e => hcore (Option.some.inj e).symm, e, he, rfl⟩

theorem pairwise_distinctThresholds (h : Ascending ds)
    (hlast : ∀ c, last = some c → ∀ d ∈ ds, c ≤ d.threshold.core) :
    ((distinctThresholds last ds).map Version.core).Pairwise (· < ·) := by
  induction ds generalizing last with
  | nil => exact .nil
  | cons d ds ih =>
      obtain ⟨hd, hds⟩ := List.pairwise_cons.1 h
      rw [distinctThresholds]
      split
      next => exact ih hds fun c hc e he => hlast c hc e (List.mem_cons_of_mem d he)
      next =>
        have hfirst : ∀ c, some d.threshold.core = some c → ∀ e ∈ ds, c ≤ e.threshold.core :=
          fun c hc => Option.some.inj hc ▸ hd
        refine List.pairwise_cons.2 ⟨fun core hcore => ?_, ih hds hfirst⟩
        obtain ⟨hne, e, he, rfl⟩ := (mem_distinctThresholds hds hfirst).1 hcore
        exact CoreVersion.lt_of_le_of_ne (hd e he) fun heq => hne (congrArg some heq)

end DistinctThresholds

theorem pairwise_thresholds (e : Evolution) :
    (e.thresholds.map Version.core).Pairwise (· < ·) :=
  pairwise_distinctThresholds e.sorted (by simp)

theorem mem_thresholds {e : Evolution} {core : CoreVersion} :
    core ∈ e.thresholds.map Version.core ↔ ∃ d ∈ e.deltas, d.threshold.core = core := by
  rw [thresholds, mem_distinctThresholds e.sorted (by simp)]
  simp

/-- One of some versions has the highest numbers. -/
theorem exists_highest {ts : List Version} (h : ts ≠ []) :
    ∃ t ∈ ts, ∀ s ∈ ts, s.core ≤ t.core := by
  induction ts with
  | nil => exact absurd rfl h
  | cons s ts ih =>
      by_cases hts : ts = []
      · subst hts
        exact ⟨s, List.mem_cons_self, List.forall_mem_singleton.2 (CoreVersion.le_refl _)⟩
      · obtain ⟨t, ht, hhighest⟩ := ih hts
        rcases CoreVersion.le_total s.core t.core with hst | hts
        · exact ⟨t, List.mem_cons_of_mem s ht, List.forall_mem_cons.2 ⟨hst, hhighest⟩⟩
        · exact ⟨s, List.mem_cons_self, List.forall_mem_cons.2
            ⟨CoreVersion.le_refl _, fun r hr => CoreVersion.le_trans (hhighest r hr) hts⟩⟩

theorem lastReached_or_before (e : Evolution) (v : Version) :
    (∃ t, e.LastReached v t) ∨ ∀ t ∈ e.thresholds, v.core < t.core := by
  by_cases hreached : (e.thresholds.filter fun t => t.core ≤ v.core) = []
  · right
    simpa [List.filter_eq_nil_iff] using hreached
  · left
    obtain ⟨t, ht, hhighest⟩ := exists_highest hreached
    obtain ⟨hmem, hle⟩ := List.mem_filter.1 ht
    exact ⟨t, hmem, of_decide_eq_true hle, fun s hs hsv =>
      hhighest s (List.mem_filter.2 ⟨hs, decide_eq_true hsv⟩)⟩

/-- Versions that reach the same thresholds have the same deltas in force. -/
theorem deltasAt_congr {e : Evolution} {a b : CoreVersion}
    (h : ∀ d ∈ e.deltas, d.threshold.core ≤ a ↔ d.threshold.core ≤ b) :
    e.deltasAt a = e.deltasAt b := by
  rw [deltasAt_eq_filter, deltasAt_eq_filter]
  exact List.filter_congr fun d hd => by simp only [h d hd]

theorem LastReached.build_eq {e : Evolution} {v t : Version} (h : e.LastReached v t) :
    e.build v = e.build t := by
  have hsame : e.deltasAt v.core = e.deltasAt t.core := by
    -- each delta has its numbers in the list of thresholds, and none there lies between the two
    refine deltasAt_congr fun d hd => ⟨fun hle => ?_, fun hle => CoreVersion.le_trans hle h.reached⟩
    obtain ⟨s, hs, hcore⟩ := List.mem_map.1 (mem_thresholds.2 ⟨d, hd, rfl⟩)
    rw [← hcore] at hle ⊢
    exact h.last s hs hle
  simp only [build, hsame]

theorem build_of_before {e : Evolution} {v : Version}
    (h : ∀ t ∈ e.thresholds, v.core < t.core) : e.build v = validated e.base := by
  have hnone : e.deltasAt v.core = [] := by
    rw [deltasAt_eq_filter, List.filter_eq_nil_iff]
    intro d hd
    obtain ⟨s, hs, hcore⟩ := List.mem_map.1 (mem_thresholds.2 ⟨d, hd, rfl⟩)
    rw [← hcore, decide_eq_true_eq, CoreVersion.not_le]
    exact h s hs
  rw [build, hnone]
  rfl

/-- The thresholds are strictly ascending and have the numbers of the deltas. The schema of a version
is that of the last threshold it has reached, and the base, if it has no defect, before the first
one. So every version has a schema when the base and all thresholds have one. -/
theorem build_follows_thresholds (e : Evolution) :
    (e.thresholds.map Version.core).Pairwise (· < ·) ∧
      (∀ core, core ∈ e.thresholds.map Version.core ↔
        ∃ d ∈ e.deltas, d.threshold.core = core) ∧
      (∀ v, (∃ t, e.LastReached v t) ∨ ∀ t ∈ e.thresholds, v.core < t.core) ∧
      (∀ v t, e.LastReached v t → e.build v = e.build t) ∧
      (∀ v, (∀ t ∈ e.thresholds, v.core < t.core) → e.build v = validated e.base) ∧
      (e.base.validate = .ok () → (∀ t ∈ e.thresholds, ∃ tree, e.build t = .ok tree) →
        ∀ v, ∃ tree, e.build v = .ok tree) := by
  refine ⟨e.pairwise_thresholds, fun _ => mem_thresholds, e.lastReached_or_before,
    fun _ _ => LastReached.build_eq, fun _ => build_of_before, fun hbase hbuilt v => ?_⟩
  rcases e.lastReached_or_before v with ⟨t, ht⟩ | hbefore
  · rw [ht.build_eq]
    exact hbuilt t ht.mem
  · exact ⟨e.base, by rw [build_of_before hbefore, validated_eq_ok_iff]; exact ⟨rfl, hbase⟩⟩

/-- A block from one version on, and another one from a beta of a later version on. -/
def twoAdditions : Evolution where
  baseVersion := .release 0 12 0
  base := .empty
  deltas := [⟨.release 0 12 6, [], .addBlock "output" .bare⟩,
    ⟨{ Version.release 0 13 0 with pre := [⟨['b'], by decide, by decide⟩] }, [],
      .addBlock "module" .bare⟩]
  sorted := by simp [Version.core, Version.release]; decide

/-- Between the two thresholds the schema is that of the first one, before both it is the base, and
every version has a schema. -/
theorem build_twoAdditions :
    (twoAdditions.LastReached (.release 0 12 9) (.release 0 12 6) ∧
        twoAdditions.build (.release 0 12 9) = twoAdditions.build (.release 0 12 6)) ∧
      ((∀ t ∈ twoAdditions.thresholds, (Version.release 0 12 5).core < t.core) ∧
        twoAdditions.build (.release 0 12 5) = validated .empty) ∧
      twoAdditions.base.validate = .ok () ∧
      (∀ t ∈ twoAdditions.thresholds, ∃ tree, twoAdditions.build t = .ok tree) ∧
      ∀ v, ∃ tree, twoAdditions.build v = .ok tree := by
  obtain ⟨-, -, -, hsame, hbase, hall⟩ := build_follows_thresholds twoAdditions
  have hlast : twoAdditions.LastReached (.release 0 12 9) (.release 0 12 6) :=
    ⟨List.mem_cons_self, by decide, List.forall_mem_cons.2
      ⟨fun _ => CoreVersion.le_refl _, List.forall_mem_singleton.2 fun h => absurd h (by decide)⟩⟩
  have hbefore : ∀ t ∈ twoAdditions.thresholds, (Version.release 0 12 5).core < t.core :=
    List.forall_mem_cons.2 ⟨by decide, List.forall_mem_singleton.2 (by decide)⟩
  have hbuilt : ∀ t ∈ twoAdditions.thresholds, ∃ tree, twoAdditions.build t = .ok tree :=
    List.forall_mem_cons.2 ⟨⟨_, rfl⟩, List.forall_mem_singleton.2 ⟨_, rfl⟩⟩
  exact ⟨⟨hlast, hsame _ _ hlast⟩, ⟨hbefore, hbase _ hbefore⟩, rfl, hbuilt, hall rfl hbuilt⟩

end Evolution

end ConfigSchema
