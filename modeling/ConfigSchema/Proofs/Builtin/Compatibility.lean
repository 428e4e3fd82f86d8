import ConfigSchema.Builtin.History
import ConfigSchema.Proofs.Evolution.RelaxationTest
import ConfigSchema.Proofs.Evolution.Steps

/-!
The built-in schema through the versions of the language. Its deltas replace whole blocks, but each
of them only relaxes the schema of the versions before it. Main statement: there is a schema for
every version, and it accepts all configurations of earlier versions.
-/

namespace ConfigSchema.Builtin

open Delta (RelaxAlong)

/-- The versions at which the schema changes. -/
def changes : List CoreVersion := [v0_12_6.core, v0_12_18.core, v0_12_20.core, v0_13_0.core]

/-- The deltas in the order in which they are applied. -/
def history : List Delta :=
  changes.flatMap fun core => deltas.filter fun d => d.threshold.core = core

theorem threshold_mem_changes : ∀ d ∈ deltas, d.threshold.core ∈ changes := by
  decide

theorem deltas_evolution : evolution.deltas = history :=
  Evolution.mergeSort_eq_flatMap (by decide) threshold_mem_changes

/-- The replaced blocks are the ones to look at: their limits are raised or dropped, and the entries
of required providers become objects with more optional attributes. -/
theorem relaxAlong_history : RelaxAlong evolution.deltas evolution.base := by
  -- the test is computed, and sorting is not made for that
  rw [deltas_evolution]
  have htest : Delta.areRelaxing history baseSchema = true := by decide +kernel
  exact Delta.relaxAlong_of_areRelaxing htest

theorem validate_baseSchema : baseSchema.validate = .ok () := by
  have hok : baseSchema.validate.isOk = true := by decide +kernel
  cases h : baseSchema.validate with
  | ok _ => rfl
  | error err =>
      rw [h] at hok
      cases hok

theorem exists_build_of_change {v : Version} (hv : v.core ∈ changes) :
    ∃ t, evolution.build v = .ok t := by
  have hbuild : evolution.build v = Evolution.applyAll
      (history.takeWhile fun d => d.threshold.core ≤ v.core) baseSchema >>=
        Evolution.validated := by
    rw [Evolution.build, Evolution.deltasAt, deltas_evolution]
    rfl
  have hall : ∀ core ∈ changes, (Evolution.applyAll
      (history.takeWhile fun d => d.threshold.core ≤ core) baseSchema >>=
        Evolution.validated).isOk = true := by
    decide +kernel
  have hok := hall v.core hv
  rw [← hbuild] at hok
  cases h : evolution.build v with
  | ok t => exact ⟨t, rfl⟩
  | error err =>
      rw [h] at hok
      cases hok

/-- There is a schema for every version: that of the last change before it, or the base. -/
theorem exists_build (v : Version) : ∃ t, evolution.build v = .ok t := by
  obtain ⟨s, hs⟩ | hbefore := evolution.lastReached_or_before v
  · rw [hs.build_eq]
    obtain ⟨d, hd, hcore⟩ := Evolution.mem_thresholds.1 (List.mem_map_of_mem hs.mem)
    refine exists_build_of_change ?_
    rw [← hcore]
    exact threshold_mem_changes d (List.mem_mergeSort.1 hd)
  · refine ⟨baseSchema, ?_⟩
    rw [Evolution.build_of_before hbefore, Evolution.validated_eq_ok_iff]
    exact ⟨rfl, validate_baseSchema⟩

/-- There are schemas for both of two versions, the later one accepts every configuration that the
earlier one accepts, and it still has all blocks and attributes. -/
theorem backward_compatible {v w : Version} (h : v.core ≤ w.core) :
    ∃ t u, evolution.build v = .ok t ∧ evolution.build w = .ok u ∧
      (∀ os, t.Accepts os → u.Accepts os) ∧
      ∀ path b, t.blockAt? path = some b → ∃ b', u.blockAt? path = some b' ∧
        (∀ name, b.attributes.contains name = true → b'.attributes.contains name = true) ∧
        (b.openRule.isSome = true → b'.openRule.isSome = true) := by
  obtain ⟨t, ht⟩ := exists_build v
  obtain ⟨u, hu⟩ := exists_build w
  have hextended : t.ExtendedBy u := Evolution.extendedBy_of_le relaxAlong_history h ht hu
  refine ⟨t, u, ht, hu, fun os hos => hos.of_extendedBy hextended, fun path b hb => ?_⟩
  obtain ⟨b', hb', hrelaxed⟩ := hextended path b hb
  refine ⟨b', hb', fun name hname => ?_, fun hopen => ?_⟩
  · obtain ⟨a, ha⟩ := Entries.contains_iff.1 hname
    obtain ⟨a', ha', -⟩ := hrelaxed.kept name a ha
    exact Entries.contains_iff.2 ⟨a', ha'⟩
  · obtain ⟨r, hr⟩ := Option.isSome_iff_exists.1 hopen
    obtain ⟨r', hr', -⟩ := hrelaxed.openRule r hr
    exact Option.isSome_iff_exists.2 ⟨r', hr'⟩

/-- Version 0.13.0 replaces the blocks for backends and required providers, and still accepts what
0.12.19 accepts. -/
theorem compatible_replacedBlocks :
    (Version.release 0 12 19).core ≤ v0_13_0.core ∧
      ∃ t u, evolution.build (.release 0 12 19) = .ok t ∧ evolution.build v0_13_0 = .ok u ∧
        ∀ os, t.Accepts os → u.Accepts os := by
  have hle : (Version.release 0 12 19).core ≤ v0_13_0.core := by decide
  obtain ⟨t, u, ht, hu, haccepts, -⟩ := backward_compatible hle
  exact ⟨hle, t, u, ht, hu, haccepts⟩

end ConfigSchema.Builtin
