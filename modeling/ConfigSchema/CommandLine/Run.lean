import ConfigSchema.Builtin.History
import ConfigSchema.CommandLine.Invocation
import ConfigSchema.Diff.Report
import ConfigSchema.Evolution.Cache
import ConfigSchema.Fingerprint.Basic
import ConfigSchema.Settings.Sources

/-!
What a command line leads to: the text on the two outputs and the exit code. The exit code is 1
after a failure, and 2 after wrong usage or when changes are not compatible.
-/

namespace ConfigSchema

inductive CommandError
  | settings (cause : SettingsError)
  | schema (cause : SchemaError)
  | missingBlock (path : String) (version : Version)

/-- The message and below it the messages of the causes, from the outermost to the innermost. -/
def CommandError.message : CommandError → String
  | settings cause =>
    "loading configuration: Configuration error: " ++ cause.message ++ ": " ++ cause.message
  | schema (.malformedVersion cause) =>
    (SchemaError.malformedVersion cause).message ++ ": " ++ cause.message
  | schema cause => cause.message
  | missingBlock path version => "no block at '" ++ path ++ "' in " ++ version.text

structure CommandResult where
  exitCode : UInt32
  output : String
  errors : String

namespace SchemaCache

/-- The tree of a version, taken from the cache when the settings say so. -/
def treeFor (c : SchemaCache) (cached : Bool) (v : Version) :
    Except SchemaError SchemaTree × SchemaCache :=
  if cached then ((c.get v).1.map (·.tree), (c.get v).2) else (c.evolution.build v, c)

end SchemaCache

namespace Invocation

/-- The JSON text of a document and the end of the line. -/
def json (compact : Bool) (d : Document) : String :=
  (if compact then d.compact else d.indented) ++ "\n"

/-- The version that is asked for, or else the default. -/
def versionFor (settings : ToolSettings) : Option String → Except SchemaError Version
  | some text => Version.ofLanguageText text
  | none => settings.version

/-- The schema of a version, or the block at a path with points. -/
def schemaText (compact : Bool) (tree : SchemaTree) (v : Version) :
    Option String → Except CommandError String
  | none => .ok (json compact tree.document)
  | some path =>
    match tree.blockAt? ((Text.splitAt '.' path.toList).map String.ofList) with
    | some b => .ok (json compact b.document)
    | none => .error (.missingBlock path v)

/-- The changes between two versions. -/
def changesText (settings : ToolSettings) (compact strict : Bool) (source target : String) :
    Except SchemaError (DiffReport × String) := do
  let cache := SchemaCache.empty Builtin.evolution
  let v ← Version.ofLanguageText source
  let (old, cache) := cache.treeFor settings.cacheEnabled v
  let old ← old
  let v ← Version.ofLanguageText target
  let (new, _) := cache.treeFor settings.cacheEnabled v
  let report := DiffReport.compare old (← new) (strict || settings.strict)
  return (report, json compact report.document)

/-- The exit code and the output of an invocation. -/
def outcome (i : Invocation) (settings : ToolSettings) : Except CommandError (UInt32 × String) := do
  let cache := SchemaCache.empty Builtin.evolution
  match i.command with
  | .schema version block =>
    let v ← (versionFor settings version).mapError .schema
    let tree ← (cache.treeFor settings.cacheEnabled v).1.mapError .schema
    return (0, ← schemaText i.compact tree v block)
  | .changes source target strict =>
    let (report, text) ← (changesText settings i.compact strict source target).mapError .schema
    return (if report.isCompatible then 0 else 2, text)
  | .fingerprint version =>
    let v ← (versionFor settings version).mapError .schema
    let tree ← (cache.treeFor settings.cacheEnabled v).1.mapError .schema
    return (0, (Fingerprint.ofTree tree).text ++ "  " ++ v.text ++ "\n")

/-- The settings are loaded before anything else. -/
def run (i : Invocation) (sources : SettingSources) : Except CommandError (UInt32 × String) := do
  i.outcome (← (ToolSettings.load sources i.settingsFile).mapError .settings)

end Invocation

namespace CommandResult

/-- A short account of the commands. -/
def usage : String :=
  String.join [
    "Usage: schema-export [-c FILE] [--compact] COMMAND\n\n",
    "  show [-V VERSION] [-b PATH]            Print the schema tree as JSON\n",
    "  diff -f VERSION -t VERSION [--strict]  Report the changes between two versions\n",
    "  fingerprint [-V VERSION]               Print the fingerprint of a version's tree\n"]

/-- The result of a command line. -/
def ofArguments (args : List String) (sources : SettingSources) : CommandResult :=
  match Invocation.parse args with
  | .error .help => ⟨0, usage, ""⟩
  | .error .usage => ⟨2, "", usage⟩
  | .ok i =>
    match i.run sources with
    | .ok (code, text) => ⟨code, text, ""⟩
    | .error e => ⟨1, "", "Error: " ++ e.message ++ "\n"⟩

end CommandResult

end ConfigSchema
