import ConfigSchema.CommandLine.Options

/-!
What the program can be asked for: the schema of a version, the changes between two versions, or the
fingerprint of a schema.
-/

namespace ConfigSchema

inductive Command
  /-- The schema, or the block at a path. -/
  | schema (version block : Option String)
  | changes (source target : String) (strict : Bool)
  | fingerprint (version : Option String)
  deriving DecidableEq

structure Invocation where
  settingsFile : Option String
  /-- JSON is written without white space. -/
  compact : Bool
  command : Command
  deriving DecidableEq

namespace CommandOption

def config : CommandOption := ⟨"config", some 'c', true, false⟩

def compact : CommandOption := ⟨"compact", none, false, true⟩

def version : CommandOption := ⟨"version", some 'V', true, true⟩

def block : CommandOption := ⟨"block", some 'b', true, true⟩

def source : CommandOption := ⟨"from", some 'f', true, true⟩

def target : CommandOption := ⟨"to", some 't', true, true⟩

def strict : CommandOption := ⟨"strict", none, false, true⟩

end CommandOption

namespace Command

/-- The names of the commands. -/
def names : List String := ["show", "diff", "fingerprint", "help"]

/-- The help on a command: at most one name may follow. -/
def parseHelp : List String → Refusal
  | [] => .help
  | [name] => if names.contains name then .help else .usage
  | _ => .usage

def parse (name : String) (args : List String) : Except Refusal Command := do
  if name = "show" then
    let given ← GivenOptions.readAll [.version, .block, .help] args
    return schema (given.get? .version) (given.get? .block)
  else if name = "diff" then
    let given ← GivenOptions.readAll [.source, .target, .strict, .help] args
    match given.get? .source, given.get? .target with
    | some source, some target => return changes source target (given.has .strict)
    | _, _ => throw .usage
  else if name = "fingerprint" then
    let given ← GivenOptions.readAll [.version, .help] args
    return fingerprint (given.get? .version)
  else throw (parseHelp args)

end Command

/-- The invocation of a command line. -/
def Invocation.parse (args : List String) : Except Refusal Invocation := do
  match ← GivenOptions.scan [.config, .compact, .help] Command.names .empty args with
  | (_, .exhausted) => throw .usage
  | (given, .command name rest) =>
    let command ← Command.parse name rest
    let given ← given.settle
    return ⟨given.get? .config, given.has .compact, command⟩

end ConfigSchema
