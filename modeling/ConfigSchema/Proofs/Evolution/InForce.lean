import ConfigSchema.Proofs.Evolution.Run
import ConfigSchema.Proofs.Sorting
import Mathlib.Data.List.Perm.Basic
import Mathlib.Data.List.Range
import Mathlib.Data.List.TakeWhile

/-!
Which deltas make the schema of a version, and in which order. The deltas of an evolution are sorted
by their thresholds and those in force at a version are a first part of them, so none is missed.
Sorting keeps deltas with equal thresholds in the order in which they were given. Main statement: the
schema of a version is that of the deltas in force, by threshold and then by position.
-/

namespace ConfigSchema

namespace Evolution

open Delta

/-- Deltas in ascending order of their thresholds. -/
def Ascending (ds : List Delta) : Prop :=
  ds.Pairwise fun d e => d.threshold.core ≤ e.threshold.core

/-- Once a threshold is not reached, no later one is. -/
theorem takeWhile_eq_filter {ds : List Delta} (h : Ascending ds) (core : CoreVersion) :
    (ds.takeWhile fun d => d.threshold.core ≤ core) =
      ds.filter fun d => d.threshold.core ≤ core := by
  induction ds with
  | nil => rfl
  | cons d ds ih =>
      obtain ⟨hd, hds⟩ := List.pairwise_cons.1 h
      by_cases hreached : d.threshold.core ≤ core
      · rw [List.takeWhile_cons_of_pos (by simpa using hreached),
          List.filter_cons_of_pos (by simpa using hreached), ih hds]
      · have hlater : ∀ e ∈ ds, ¬e.threshold.core ≤ core := fun e he hle =>
          hreached (CoreVersion.le_trans (hd e he) hle)
        rw [List.takeWhile_cons_of_neg (by simpa using hreached),
          List.filter_cons_of_neg (by simpa using hreached), eq_comm, List.filter_eq_nil_iff]
        simpa using hlater

theorem deltasAt_eq_filter (e : Evolution) (core : CoreVersion) :
    e.deltasAt core = e.deltas.filter fun d => d.threshold.core ≤ core :=
  takeWhile_eq_filter e.sorted core

/-- The deltas in force are those whose thresholds the version has reached. -/
theorem deltasAt_eq_filter_isAtLeast (e : Evolution) (v : Version) :
    e.deltasAt v.core = e.deltas.filter fun d => v.isAtLeast d.threshold :=
  e.deltasAt_eq_filter v.core

/-- Among the deltas up to some numbers, those up to lower numbers come first. -/
theorem Ascending.filter_append {ds : List Delta} (h : Ascending ds) {a b : CoreVersion}
    (hab : a ≤ b) : (ds.filter fun d => d.threshold.core ≤ b) =
      (ds.filter fun d => d.threshold.core ≤ a) ++
        ds.filter fun d => a < d.threshold.core ∧ d.threshold.core ≤ b := by
  induction ds with
  | nil => rfl
  | cons d ds ih =>
      obtain ⟨hd, hds⟩ := List.pairwise_cons.1 h
      by_cases hearly : d.threshold.core ≤ a
      · have hlate : ¬a < d.threshold.core := fun hlt => hlt hearly
        have hreached : d.threshold.core ≤ b := CoreVersion.le_trans hearly hab
        simp [hearly, hlate, hreached, ih hds]
      · -- from here on, all thresholds are above the lower numbers
        have hlater : ∀ e ∈ d :: ds, a < e.threshold.core := List.forall_mem_cons.2
          ⟨hearly, fun e he hea => hearly (CoreVersion.le_trans (hd e he) hea)⟩
        have hnone : ((d :: ds).filter fun e => e.threshold.core ≤ a) = [] :=
          List.filter_eq_nil_iff.2 fun e he hea => hlater e he (of_decide_eq_true hea)
        rw [hnone, List.nil_append]
        exact List.filter_congr fun e he => by simp [hlater e he]

/-- The deltas of a version come first among those of a later version. -/
theorem deltasAt_append (e : Evolution) {a b : CoreVersion} (h : a ≤ b) :
    e.deltasAt b = e.deltasAt a ++
      e.deltas.filter fun d => a < d.threshold.core ∧ d.threshold.core ≤ b := by
  rw [deltasAt_eq_filter, deltasAt_eq_filter]
  exact Ascending.filter_append e.sorted h

/-- The schema of a later version is what the deltas between the two versions make of the earlier
one. -/
theorem leads_between {e : Evolution} {v w : Version} (h : v.core ≤ w.core) {t u : SchemaTree}
    (ht : e.build v = .ok t) (hu : e.build w = .ok u) :
    Leads (e.deltas.filter fun d => v.core < d.threshold.core ∧ d.threshold.core ≤ w.core) t u := by
  obtain ⟨hearlier, -⟩ := build_eq_ok_iff.1 ht
  obtain ⟨hlater, -⟩ := build_eq_ok_iff.1 hu
  rw [e.deltasAt_append h, leads_append] at hlater
  obtain ⟨t', ht', hu'⟩ := hlater
  cases ht'.unique hearlier
  exact hu'

/-- The first delta comes before the second one: its threshold is lower, or the thresholds have
equal numbers and it was given first. -/
def Before (p q : Delta × Nat) : Prop :=
  p.1.threshold.core < q.1.threshold.core ∨
    p.1.threshold.core = q.1.threshold.core ∧ p.2 < q.2

/-- The deltas in force at a version, each with its position in the list as it was given, in the
order in which they are applied. -/
structure InForce (ds : List Delta) (core : CoreVersion) (ps : List (Delta × Nat)) : Prop where
  mem_iff : ∀ p, p ∈ ps ↔ ds[p.2]? = some p.1 ∧ p.1.threshold.core ≤ core
  ordered : ps.Pairwise Before

theorem Before.asymm {p q : Delta × Nat} (h : Before p q) : ¬Before q p := by
  rcases h with h | ⟨heq, h⟩
  · rintro (h' | ⟨heq', -⟩)
    · exact CoreVersion.not_le.2 h (CoreVersion.le_of_lt h')
    · exact CoreVersion.not_le.2 h (heq' ▸ CoreVersion.le_refl _)
  · rintro (h' | ⟨-, h'⟩)
    · exact CoreVersion.not_le.2 h' (heq ▸ CoreVersion.le_refl _)
    · omega

theorem InForce.nodup {ds : List Delta} {core : CoreVersion} {ps : List (Delta × Nat)}
    (h : InForce ds core ps) : ps.Nodup :=
  h.ordered.imp fun hb e => by
    subst e
    exact hb.asymm hb

theorem InForce.unique {ds : List Delta} {core : CoreVersion} {ps qs : List (Delta × Nat)}
    (hp : InForce ds core ps) (hq : InForce ds core qs) : qs = ps := by
  -- both have the same members and are ordered by a strict order
  have hperm : qs.Perm ps := (List.perm_ext_iff_of_nodup hq.nodup hp.nodup).2 fun p => by
    rw [hq.mem_iff, hp.mem_iff]
  exact hperm.eq_of_pairwise (fun p q _ _ h h' => absurd h' h.asymm) hq.ordered hp.ordered

/-- The deltas with their positions, sorted. -/
def numbered (ds : List Delta) : List (Delta × Nat) :=
  ds.zipIdx.mergeSort (List.zipIdxLE notAfter)

theorem map_fst_numbered (ds : List Delta) :
    (numbered ds).map Prod.fst = ds.mergeSort notAfter := List.mergeSort_zipIdx

theorem mem_numbered {ds : List Delta} {p : Delta × Nat} :
    p ∈ numbered ds ↔ ds[p.2]? = some p.1 := by
  rw [numbered, List.mem_mergeSort, List.mem_zipIdx_iff_getElem?]

theorem pairwise_numbered (ds : List Delta) : (numbered ds).Pairwise Before := by
  have hsorted : (numbered ds).Pairwise fun p q => List.zipIdxLE notAfter p q = true :=
    List.pairwise_mergeSort (List.zipIdxLE_trans notAfter_trans) (List.zipIdxLE_total notAfter_total)
      ds.zipIdx
  have hpositions : (numbered ds).Pairwise fun p q => p.2 ≠ q.2 := by
    have hperm : ((numbered ds).map Prod.snd).Perm (List.range' 0 ds.length) := by
      rw [← List.zipIdx_map_snd]
      exact (List.mergeSort_perm ds.zipIdx _).map Prod.snd
    exact List.pairwise_map.1 (hperm.nodup_iff.2 (List.nodup_range' 1))
  -- with equal numbers the sort goes by the positions, and no two positions are equal
  refine hsorted.imp₂ (fun p q hle hne => ?_) hpositions
  rw [List.zipIdxLE] at hle
  split at hle
  next hpq =>
    have hpq : p.1.threshold.core ≤ q.1.threshold.core := of_decide_eq_true hpq
    split at hle
    next hqp =>
      have hqp : q.1.threshold.core ≤ p.1.threshold.core := of_decide_eq_true hqp
      have hposition : p.2 ≤ q.2 := of_decide_eq_true hle
      exact .inr ⟨CoreVersion.le_antisymm hpq hqp, by omega⟩
    next hqp => exact .inl (CoreVersion.not_le.1 fun hle => hqp (decide_eq_true hle))
  next => cases hle

theorem inForce_numbered (ds : List Delta) (core : CoreVersion) :
    InForce ds core ((numbered ds).filter fun p => p.1.threshold.core ≤ core) where
  mem_iff p := by simp [List.mem_filter, mem_numbered]
  ordered := (pairwise_numbered ds).filter _

theorem deltasAt_ofDeltas (v₀ : Version) (base : SchemaTree) (ds : List Delta)
    (core : CoreVersion) :
    (ofDeltas v₀ base ds).deltasAt core =
      ((numbered ds).filter fun p => p.1.threshold.core ≤ core).map Prod.fst := by
  have hsorted : (ofDeltas v₀ base ds).deltas = (numbered ds).map Prod.fst :=
    (map_fst_numbered ds).symm
  rw [deltasAt_eq_filter, hsorted, List.filter_map]
  rfl

/-- Sorting keeps deltas with equal thresholds in their order. -/
theorem filter_mergeSort (ds : List Delta) (core : CoreVersion) :
    ((ds.mergeSort notAfter).filter fun d => d.threshold.core = core) =
      ds.filter fun d => d.threshold.core = core :=
  Sorting.filter_mergeSort ds core

/-- Sorting lists the deltas threshold by threshold. -/
theorem mergeSort_eq_flatMap {ds : List Delta} {cores : List CoreVersion}
    (h : cores.Pairwise (· < ·)) (hall : ∀ d ∈ ds, d.threshold.core ∈ cores) :
    ds.mergeSort notAfter =
      cores.flatMap fun c => ds.filter fun d => d.threshold.core = c :=
  Sorting.mergeSort_eq_flatMap h hall

theorem ofDeltas_congr (v₀ : Version) (base : SchemaTree) {ds es : List Delta}
    (h : ∀ core, (ds.filter fun d => d.threshold.core = core) =
      es.filter fun d => d.threshold.core = core) :
    ofDeltas v₀ base ds = ofDeltas v₀ base es := by
  have hsorted : ds.mergeSort notAfter = es.mergeSort notAfter :=
    Sorting.eq_of_filter_eq (pairwise_sort ds) (pairwise_sort es) fun core => by
      rw [filter_mergeSort, filter_mergeSort, h]
  simp only [ofDeltas, hsorted]

/-- In whatever order the deltas are given, the schema of a version is what the deltas in force make
of the base, by threshold and then by position: the first of them that fails gives the error, and
otherwise the tree must have no defect. Only the order among deltas with equal thresholds matters. -/
theorem build_ofDeltas (v₀ : Version) (base : SchemaTree) (ds : List Delta) :
    (∀ v : Version, ∃ ps, InForce ds v.core ps ∧ (∀ qs, InForce ds v.core qs → qs = ps) ∧
      (∀ t, (ofDeltas v₀ base ds).build v = .ok t ↔
        Leads (ps.map Prod.fst) base t ∧ t.validate = .ok ()) ∧
      ∀ err, (ofDeltas v₀ base ds).build v = .error err ↔
        FailsWith (ps.map Prod.fst) base err ∨
          ∃ t, Leads (ps.map Prod.fst) base t ∧ t.validate = .error err) ∧
      ∀ es, (∀ core, (ds.filter fun d => d.threshold.core = core) =
          es.filter fun d => d.threshold.core = core) →
        ∀ v, (ofDeltas v₀ base ds).build v = (ofDeltas v₀ base es).build v := by
  refine ⟨fun v => ?_, fun es h v => ?_⟩
  · have hps := inForce_numbered ds v.core
    refine ⟨_, hps, fun qs hqs => hps.unique hqs, fun t => ?_, fun err => ?_⟩
    · rw [build_eq_ok_iff, deltasAt_ofDeltas]
      rfl
    · rw [build_eq_error_iff, deltasAt_ofDeltas]
      rfl
  · rw [ofDeltas_congr v₀ base h]

/-- Two blocks that are added, the later one first. -/
def laterFirst : List Delta :=
  [⟨.release 0 13 0, [], .addBlock "module" .bare⟩, ⟨.release 0 12 6, [], .addBlock "output" .bare⟩]

/-- With different thresholds the order in which two deltas are given makes no difference. -/
theorem build_laterFirst_reverse :
    (∀ core, (laterFirst.filter fun d => d.threshold.core = core) =
        laterFirst.reverse.filter fun d => d.threshold.core = core) ∧
      ∀ v, (ofDeltas (.release 0 12 0) .empty laterFirst).build v =
        (ofDeltas (.release 0 12 0) .empty laterFirst.reverse).build v := by
  have h : ∀ core, (laterFirst.filter fun d => d.threshold.core = core) =
      laterFirst.reverse.filter fun d => d.threshold.core = core := fun core => by
    have hne : (Version.release 0 13 0).core ≠ (Version.release 0 12 6).core := by decide
    by_cases hlater : (Version.release 0 13 0).core = core
    · have hearlier : ¬(Version.release 0 12 6).core = core := fun e => hne (hlater.trans e.symm)
      simp [laterFirst, hlater, hearlier]
    · simp [laterFirst, List.filter_cons, hlater]
  exact ⟨h, (build_ofDeltas (.release 0 12 0) .empty laterFirst).2 laterFirst.reverse h⟩

end Evolution

end ConfigSchema
