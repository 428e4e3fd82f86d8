import ConfigSchema.Evolution.Delta
import ConfigSchema.Schema.Defect

/-!
The evolution of a schema: the schema of the first version, and the deltas that lead to later ones.
The deltas are kept in the order of their thresholds, those with equal numbers in the order in which
they were given, so the deltas of a version are a first part of the list.
-/

namespace ConfigSchema

structure Evolution where
  baseVersion : Version
  base : SchemaTree
  deltas : List Delta
  sorted : deltas.Pairwise fun d e => d.threshold.core ≤ e.threshold.core

namespace Evolution

/-- The comparison by which deltas are sorted. -/
def notAfter (d e : Delta) : Bool := decide (d.threshold.core ≤ e.threshold.core)

theorem notAfter_trans (a b c : Delta) (hab : notAfter a b) (hbc : notAfter b c) :
    notAfter a c := by
  simp only [notAfter, decide_eq_true_eq] at *
  exact CoreVersion.le_trans hab hbc

theorem notAfter_total (a b : Delta) : notAfter a b || notAfter b a := by
  simp only [notAfter, Bool.or_eq_true, decide_eq_true_eq]
  exact CoreVersion.le_total _ _

theorem pairwise_sort (ds : List Delta) :
    (ds.mergeSort notAfter).Pairwise fun d e => d.threshold.core ≤ e.threshold.core :=
  (List.pairwise_mergeSort notAfter_trans notAfter_total ds).imp fun hab => by
    simpa [notAfter] using hab

/-- The evolution of deltas in any order. -/
def ofDeltas (baseVersion : Version) (base : SchemaTree) (ds : List Delta) : Evolution :=
  ⟨baseVersion, base, ds.mergeSort notAfter, pairwise_sort ds⟩

/-- The deltas that are in force at a version. -/
def deltasAt (e : Evolution) (core : CoreVersion) : List Delta :=
  e.deltas.takeWhile fun d => d.threshold.core ≤ core

/-- The tree after some deltas. -/
def applyAll (ds : List Delta) (t : SchemaTree) : Except SchemaError SchemaTree :=
  ds.foldlM (fun t d => d.apply t) t

/-- The tree if it has no defect. -/
def validated (t : SchemaTree) : Except SchemaError SchemaTree :=
  t.validate.map fun _ => t

/-- The schema of a version of the language. Pre-release and build metadata play no part. -/
def build (e : Evolution) (v : Version) : Except SchemaError SchemaTree :=
  applyAll (e.deltasAt v.core) e.base >>= validated

/-- The schema of the version that a text names. -/
def buildText (e : Evolution) (text : String) : Except SchemaError SchemaTree :=
  Version.ofLanguageText text >>= e.build

/-- The first threshold of each run of equal numbers. -/
def distinctThresholds (last : Option CoreVersion) : List Delta → List Version
  | [] => []
  | d :: ds =>
    if last = some d.threshold.core then distinctThresholds last ds
    else d.threshold :: distinctThresholds (some d.threshold.core) ds

/-- The thresholds in ascending order, one for each core version. -/
def thresholds (e : Evolution) : List Version := distinctThresholds none e.deltas

end Evolution

end ConfigSchema
