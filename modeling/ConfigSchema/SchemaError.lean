import ConfigSchema.Version.Parser

/-!
What can be wrong with a schema, with its evolution, or with the name of a scope or version.
-/

namespace ConfigSchema

inductive SchemaError
  | unknownScope (name : String)
  /-- A constraint set without alternatives. -/
  | emptyConstraints (path : String)
  | labelOutOfRange (path : String) (index : UInt64) (declared : Nat)
  | unknownAddressAttribute (path name : String)
  | unknownTypeSource (path name : String)
  /-- An address of which every step may be left out. -/
  | emptyAddress (path : String)
  /-- The name of the addressed attribute outside an open rule. -/
  | misplacedAttributeName (path : String)
  | dependencyKeyOnOpenRule (path : String)
  | missingAttribute (name path : String)
  | missingBlock (name path : String)
  | duplicateAttribute (name path : String)
  | duplicateBlock (name path : String)
  /-- A text in which no version is named. -/
  | invalidVersion (text : String)
  | malformedVersion (cause : VersionError)
  deriving DecidableEq

def SchemaError.message : SchemaError → String
  | unknownScope name => "Unknown reference scope '" ++ name ++ "'"
  | emptyConstraints path => "Empty constraint set at " ++ path
  | labelOutOfRange path index declared =>
    "Address at " ++ path ++ " reads label " ++ toString index.toNat ++
      " but the block declares " ++ toString declared ++ " label(s)"
  | unknownAddressAttribute path name =>
    "Address at " ++ path ++ " reads unknown attribute '" ++ name ++ "'"
  | unknownTypeSource path name =>
    "Reference at " ++ path ++ " infers its type from unknown attribute '" ++ name ++ "'"
  | emptyAddress path => "Address at " ++ path ++ " has no required step"
  | misplacedAttributeName path =>
    "Attribute name step used outside an any-attribute rule at " ++ path
  | dependencyKeyOnOpenRule path =>
    "Open attribute rule at " ++ path ++ " cannot be a dependency key"
  | missingAttribute name path => "Attribute '" ++ name ++ "' not found at " ++ path
  | missingBlock name path => "Block '" ++ name ++ "' not found at " ++ path
  | duplicateAttribute name path => "Attribute '" ++ name ++ "' already defined at " ++ path
  | duplicateBlock name path => "Block '" ++ name ++ "' already defined at " ++ path
  | invalidVersion text => "Invalid version: " ++ text
  | malformedVersion cause => "Semver error: " ++ cause.message

/-- The version of the language that a text names. -/
def Version.ofLanguageText (text : String) : Except SchemaError Version :=
  match languageChars text with
  | none => .error (.invalidVersion text)
  | some cs => (parseChars cs).mapError .malformedVersion

end ConfigSchema
