import ConfigSchema.Proofs.Evolution.Steps

/-!
Versions before the base version. Which deltas are in force goes by the thresholds alone, so a delta
with a threshold below the base version changes the schema of versions that predate the base.
Main statement: all of these have the base as their schema exactly when the deltas of each lower
threshold, taken together, lead from the base back to it.
-/

namespace ConfigSchema

namespace Evolution

open Delta (Leads)

/-- The deltas in force, threshold by threshold. -/
theorem deltasAt_eq_flatMap (e : Evolution) (core : CoreVersion) :
    e.deltasAt core = ((e.thresholds.map Version.core).filter (· ≤ core)).flatMap fun c =>
      e.deltas.filter fun d => d.threshold.core = c := by
  have hcores : ((e.thresholds.map Version.core).filter (· ≤ core)).Pairwise (· < ·) :=
    e.pairwise_thresholds.filter _
  rw [deltasAt_eq_filter]
  refine Sorting.eq_of_filter_eq (List.Pairwise.filter _ e.sorted)
    (Sorting.pairwise_flatMap_filter e.deltas hcores) fun c => ?_
  rw [Sorting.filter_flatMap_filter e.deltas hcores, List.filter_filter]
  split
  next hc =>
    have hle : c ≤ core := of_decide_eq_true (List.mem_filter.1 hc).2
    refine List.filter_congr fun d _ => ?_
    by_cases hd : d.threshold.core = c <;> simp [hd, hle]
  next hc =>
    -- numbers that are not listed are above the version, or no delta has them
    refine List.filter_eq_nil_iff.2 fun d hd h => hc ?_
    rw [Bool.and_eq_true, decide_eq_true_eq, decide_eq_true_eq] at h
    obtain ⟨rfl, hle⟩ := h
    exact List.mem_filter.2 ⟨mem_thresholds.2 ⟨d, hd, rfl⟩, decide_eq_true hle⟩

/-- Groups of deltas that are run up to each of some ascending numbers below a bound: every run comes
back to the tree exactly when every group does. -/
theorem leads_up_to_iff (group : CoreVersion → List Delta) {cores : List CoreVersion}
    (h : cores.Pairwise (· < ·)) (bound : CoreVersion) (t : SchemaTree) :
    (∀ c ∈ cores, c < bound → Leads ((cores.filter (· ≤ c)).flatMap group) t t) ↔
      ∀ c ∈ cores, c < bound → Leads (group c) t t := by
  induction cores with
  | nil => simp
  | cons c cores ih =>
      obtain ⟨hc, hcores⟩ := List.pairwise_cons.1 h
      have hfirst : (c :: cores).filter (· ≤ c) = [c] := by
        rw [List.filter_cons_of_pos (by simp), List.filter_eq_nil_iff.2]
        intro d hd
        simpa using hc d hd
      have hlater : ∀ d ∈ cores, (c :: cores).filter (· ≤ d) = c :: cores.filter (· ≤ d) :=
        fun d hd => List.filter_cons_of_pos (by simpa using CoreVersion.le_of_lt (hc d hd))
      rw [List.forall_mem_cons, List.forall_mem_cons, hfirst, List.flatMap_singleton]
      refine and_congr_right fun hback => ?_
      rw [← ih hcores]
      -- the first group leads back to the tree, so the later runs start from there
      refine forall₃_congr fun d hd hlt => ?_
      have hback := hback (CoreVersion.lt_of_le_of_lt (CoreVersion.le_of_lt (hc d hd)) hlt)
      rw [hlater d hd, List.flatMap_cons, Delta.leads_append]
      constructor
      · rintro ⟨u, hu, hrest⟩
        cases hback.unique hu
        exact hrest
      · exact fun hrest => ⟨t, hback, hrest⟩

/-- The schemas of the versions below a bound are those of the thresholds below it, and the base. -/
theorem forall_build_eq_base_iff (e : Evolution) (h : e.base.validate = .ok ())
    (bound : CoreVersion) : (∀ v : Version, v.core < bound → e.build v = .ok e.base) ↔
      ∀ t ∈ e.thresholds, t.core < bound → Leads (e.deltasAt t.core) e.base e.base := by
  constructor
  · intro hbuild t _ ht
    exact (build_eq_ok_iff.1 (hbuild t ht)).1
  · intro hleads v hv
    rcases e.lastReached_or_before v with ⟨t, ht⟩ | hbefore
    · rw [ht.build_eq, build_eq_ok_iff]
      exact ⟨hleads t ht.mem (CoreVersion.lt_of_le_of_lt ht.reached hv), h⟩
    · rw [build_of_before hbefore, validated_eq_ok_iff]
      exact ⟨rfl, h⟩

/-- The runs up to the thresholds below a bound, and the deltas of each of these thresholds. -/
theorem leads_thresholds_below_iff (e : Evolution) (bound : CoreVersion) (t : SchemaTree) :
    (∀ s ∈ e.thresholds, s.core < bound → Leads (e.deltasAt s.core) t t) ↔
      ∀ core, core < bound → Leads (e.deltas.filter fun d => d.threshold.core = core) t t := by
  have hgroups := leads_up_to_iff (fun c => e.deltas.filter fun d => d.threshold.core = c)
    e.pairwise_thresholds bound t
  simp only [← deltasAt_eq_flatMap, List.forall_mem_map] at hgroups
  rw [hgroups]
  constructor
  · intro h core hcore
    by_cases hthreshold : core ∈ e.thresholds.map Version.core
    · obtain ⟨s, hs, rfl⟩ := List.mem_map.1 hthreshold
      exact h s hs hcore
    · have hnone : (e.deltas.filter fun d => d.threshold.core = core) = [] :=
        List.filter_eq_nil_iff.2 fun d hd hd' =>
          hthreshold (mem_thresholds.2 ⟨d, hd, of_decide_eq_true hd'⟩)
      rw [hnone]
      exact .nil t
  · exact fun h s _ hs => h s.core hs

/-- All versions before the base version have the base as their schema exactly when the deltas of
each threshold before it undo each other. -/
theorem build_before_base_iff (v₀ : Version) (base : SchemaTree) (ds : List Delta)
    (h : base.validate = .ok ()) :
    (∀ v : Version, v.core < v₀.core → (ofDeltas v₀ base ds).build v = .ok base) ↔
      ∀ core, core < v₀.core → Leads (ds.filter fun d => d.threshold.core = core) base base := by
  have hbuild := forall_build_eq_base_iff (ofDeltas v₀ base ds) h v₀.core
  rw [leads_thresholds_below_iff] at hbuild
  simpa only [ofDeltas, filter_mergeSort] using hbuild

/-- An attribute that comes and goes with the same version before the base version, and a block that
comes after it. -/
def cameAndWent : List Delta :=
  [⟨.release 1 1 0, [], .addBlock "module" .bare⟩,
    ⟨.release 0 5 0, ["variable"], .addAttribute "count" (.optional [.any])⟩,
    ⟨.release 0 5 0, ["variable"], .removeAttribute "count"⟩]

/-- The schema with one block `variable`. -/
def variableBlock : SchemaTree := SchemaTree.empty.withBlock "variable" .bare

theorem build_cameAndWent :
    variableBlock.validate = .ok () ∧ ∀ v : Version, v.core < (Version.release 1 0 0).core →
      (ofDeltas (.release 1 0 0) variableBlock cameAndWent).build v = .ok variableBlock := by
  have hbase : variableBlock.validate = .ok () := rfl
  refine ⟨hbase, (build_before_base_iff (.release 1 0 0) variableBlock cameAndWent hbase).2
    fun core hcore => ?_⟩
  have hlater : ¬(Version.release 1 1 0).core = core := by
    rintro rfl
    exact absurd hcore (by decide)
  by_cases hearlier : (Version.release 0 5 0).core = core
  · simp only [cameAndWent, List.filter_cons, hlater, hearlier, decide_false, decide_true,
      List.filter_nil, if_true, Bool.false_eq_true, if_false]
    exact .cons rfl (.cons rfl (.nil _))
  · simp only [cameAndWent, List.filter_cons, hlater, hearlier, decide_false, List.filter_nil,
      Bool.false_eq_true, if_false]
    exact .nil _

/-- A block comes with a version that is earlier than the base version. -/
def outputBeforeBase : List Delta := [⟨.release 0 5 0, [], .addBlock "output" .bare⟩]

/-- A version before the base version has the block, and the base has not. -/
theorem build_outputBeforeBase :
    variableBlock.validate = .ok () ∧ (Version.release 0 9 0).core < (Version.release 1 0 0).core ∧
      (ofDeltas (.release 1 0 0) variableBlock outputBeforeBase).build (.release 0 9 0) =
        .ok (variableBlock.withBlock "output" .bare) ∧
      (ofDeltas (.release 1 0 0) variableBlock outputBeforeBase).build (.release 0 9 0) ≠
        .ok variableBlock := by
  have hdeltas : (ofDeltas (.release 1 0 0) variableBlock outputBeforeBase).deltasAt
      (Version.release 0 9 0).core = outputBeforeBase := by
    simp only [deltasAt, ofDeltas, outputBeforeBase, List.mergeSort_singleton]
    rfl
  have hbuild : (ofDeltas (.release 1 0 0) variableBlock outputBeforeBase).build (.release 0 9 0) =
      .ok (variableBlock.withBlock "output" .bare) := by
    rw [build_eq_ok_iff, hdeltas]
    exact ⟨.cons rfl (.nil _), rfl⟩
  refine ⟨rfl, by decide, hbuild, fun h => ?_⟩
  have hsame : some BlockSchema.bare = none :=
    congrArg (·.block? "output") (Except.ok.inj (hbuild.symm.trans h))
  cases hsame

end Evolution

end ConfigSchema
