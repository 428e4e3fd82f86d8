import ConfigSchema.Evolution.Form
import ConfigSchema.Main
import ConfigSchema.Proofs.Address.LabelCount
import ConfigSchema.Proofs.Builtin.Compatibility
import ConfigSchema.Proofs.Constraint.Blurring
import ConfigSchema.Proofs.Constraint.Literals
import ConfigSchema.Proofs.Constraint.MapLiterals
import ConfigSchema.Proofs.Constraint.Nesting
import ConfigSchema.Proofs.Constraint.Satisfiable
import ConfigSchema.Proofs.Constraint.Traversals
import ConfigSchema.Proofs.Constraint.Unresolved
import ConfigSchema.Proofs.Constraint.Widening
import ConfigSchema.Proofs.Diff.Completeness
import ConfigSchema.Proofs.Diff.Exactness
import ConfigSchema.Proofs.Diff.Growth
import ConfigSchema.Proofs.Diff.Locality
import ConfigSchema.Proofs.Diff.PathOrder
import ConfigSchema.Proofs.Diff.Reversal
import ConfigSchema.Proofs.Diff.Soundness
import ConfigSchema.Proofs.Diff.Upgrades
import ConfigSchema.Proofs.Evolution.BeforeBase
import ConfigSchema.Proofs.Evolution.Commuting
import ConfigSchema.Proofs.Evolution.Continuation
import ConfigSchema.Proofs.Evolution.Edits
import ConfigSchema.Proofs.Evolution.Extension
import ConfigSchema.Proofs.Evolution.Frame
import ConfigSchema.Proofs.Evolution.Growth
import ConfigSchema.Proofs.Evolution.InForce
import ConfigSchema.Proofs.Evolution.Reported
import ConfigSchema.Proofs.Evolution.Steps
import ConfigSchema.Proofs.Evolution.Transparency
import ConfigSchema.Proofs.Fingerprint.Coverage
import ConfigSchema.Proofs.Json.BlockInstance
import ConfigSchema.Proofs.Json.Delta
import ConfigSchema.Proofs.RefPath.Reading
import ConfigSchema.Proofs.Reference.Inference
import ConfigSchema.Proofs.Schema.Paths
import ConfigSchema.Proofs.Schema.Validity
import ConfigSchema.Proofs.Settings.DefaultVersion
import ConfigSchema.Proofs.Symbol.Accounting
import ConfigSchema.Proofs.Symbol.Chain
import ConfigSchema.Proofs.Symbol.Dotted
import ConfigSchema.Proofs.Symbol.FirstSegment
import ConfigSchema.Proofs.Symbol.Stability
import ConfigSchema.Proofs.ValueType.Blurring
import ConfigSchema.Proofs.ValueType.Order
import ConfigSchema.Proofs.ValueType.Text
import ConfigSchema.Proofs.ValueType.Values
import ConfigSchema.Proofs.Version.Language
import ConfigSchema.Symbol.Form
import ConfigSchema.Proofs.Settings.Library
