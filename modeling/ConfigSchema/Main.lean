import ConfigSchema.CommandLine.Run
import ConfigSchema.Settings.Standard

/-!
The program on the command line. It reads the files and variables that the settings may come from,
and prints what the command line leads to.
-/

namespace ConfigSchema.Surroundings

/-- The text of a file, if there is one. -/
def readFile? (path : String) : IO (Option String) := do
  try
    return some (← IO.FS.readFile path)
  catch _ => return none

/-- The names among some that lead to files, with the texts of the files. -/
def readFiles (names : List String) : IO (List (String × String)) :=
  names.filterMapM fun name => return (← readFile? name).map fun text => (name, text)

/-- The variables of the environment. -/
def environment : IO (List (String × String)) := do
  let text := (← readFile? "/proc/self/environ").getD ""
  return (Text.splitAt '\x00' text.toList).map fun entry =>
    (String.ofList (entry.takeWhile (· ≠ '=')), String.ofList ((entry.dropWhile (· ≠ '=')).drop 1))

/-- The directory for the files of the user, if it is known. -/
def userDirectory? (entries : List (String × String)) : Option String :=
  let inHome := (entries.lookup "HOME").map fun home => home ++ "/.config"
  match entries.lookup "XDG_CONFIG_HOME" with
  | some directory => if directory.startsWith "/" then some directory else inHome
  | none => inHome

def userFile? (entries : List (String × String)) : IO (Option String) := do
  match userDirectory? entries with
  | some directory => readFile? (directory ++ "/tfschema/" ++ SettingSources.userName)
  | none => return none

/-- The sources of settings when a file may be asked for. -/
def sources (request : Option String) : IO SettingSources := do
  let names := SettingSources.places ++ request.toList
  let entries ← environment
  let files ← readFiles (names.flatMap SettingFile.candidates)
  return ⟨.standard, fun name => files.lookup name, ← userFile? entries, entries⟩

/-- The file that a command line asks for. -/
def request? (args : List String) : Option String :=
  match Invocation.parse args with
  | .ok i => i.settingsFile
  | .error _ => none

end ConfigSchema.Surroundings

open ConfigSchema in
def main (args : List String) : IO UInt32 := do
  let result := CommandResult.ofArguments args (← Surroundings.sources (Surroundings.request? args))
  IO.print result.output
  IO.eprint result.errors
  return result.exitCode
