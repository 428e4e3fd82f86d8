import ConfigSchema.Text.Split

/-!
Options on a command line. An option has a long name after two hyphens and may have a letter after
one. Its value is attached to it or is the next argument, which may not look like an option. No
option is given twice.
-/

namespace ConfigSchema

structure CommandOption where
  long : String
  short : Option Char
  takesValue : Bool
  /-- The empty text is a value. -/
  admitsEmpty : Bool

/-- Why arguments are not carried out. -/
inductive Refusal
  /-- Help was asked for. -/
  | help
  /-- The arguments are wrong. -/
  | usage
  deriving DecidableEq

/-- The options read so far. The last one waits until its value and the argument after it are
known. -/
structure GivenOptions where
  values : List (String × String)
  pending : Option (CommandOption × Option String)

/-- Where the options of a command line end. -/
inductive OptionsEnd
  | exhausted
  | command (name : String) (rest : List String)

namespace CommandOption

def help : CommandOption := ⟨"help", some 'h', false, true⟩

end CommandOption

namespace GivenOptions

def empty : GivenOptions := ⟨[], none⟩

def has (g : GivenOptions) (o : CommandOption) : Bool := g.values.any fun p => p.1 = o.long

def get? (g : GivenOptions) (o : CommandOption) : Option String := g.values.lookup o.long

/-- An option is taken in with its value. -/
def accept (g : GivenOptions) (o : CommandOption) (value : String) :
    Except Refusal GivenOptions :=
  if g.has o || (value.isEmpty && !o.admitsEmpty) then .error .usage
  else .ok { g with values := g.values ++ [(o.long, value)] }

/-- The option that waits is taken in. -/
def settle (g : GivenOptions) : Except Refusal GivenOptions :=
  match g.pending with
  | none => .ok g
  | some (_, none) => .error .usage
  | some (o, some value) => accept { g with pending := none } o value

/-- The last option still needs a value. -/
def awaitsValue (g : GivenOptions) : Bool :=
  match g.pending with
  | some (_, none) => true
  | _ => false

/-- The next argument is the value of the last option. -/
def supply (g : GivenOptions) (value : String) : GivenOptions :=
  { g with pending := g.pending.map fun p => (p.1, some value) }

/-- An option with a value that may be attached to it. -/
def add (g : GivenOptions) (o : CommandOption) (attached : Option String) :
    Except Refusal GivenOptions := do
  match o.takesValue, attached with
  | true, some value => accept (← g.settle) o value
  | true, none => return { ← g.settle with pending := some (o, none) }
  | false, some _ => throw .usage
  | false, none => accept (← g.settle) o ""

/-- An option of the command, or the request for help. -/
def addKnown (g : GivenOptions) (o : Option CommandOption) (attached : Option String) :
    Except Refusal GivenOptions :=
  match o with
  | none => .error .usage
  | some o =>
    if o.long = CommandOption.help.long then
      match attached with
      | some _ => .error .usage
      | none => g.settle.bind fun _ => .error .help
    else g.add o attached

/-- An argument after its two hyphens. -/
def addLong (options : List CommandOption) (g : GivenOptions) (cs : List Char) :
    Except Refusal GivenOptions :=
  let name := String.ofList (cs.takeWhile (· ≠ '='))
  let attached := match cs.dropWhile (· ≠ '=') with
    | [] => none
    | _ :: value => some (String.ofList value)
  g.addKnown (options.find? fun o => o.long = name) attached

/-- An argument after its single hyphen: letters of options, and after a letter that takes a value
that value. -/
def addShort (options : List CommandOption) (g : GivenOptions) :
    List Char → Except Refusal GivenOptions
  | [] => .ok g
  | c :: cs =>
    match options.find? fun o => o.short = some c with
    | none => .error .usage
    | some o =>
      if o.takesValue then
        match cs with
        | [] => g.add o none
        | '=' :: value => g.add o (some (String.ofList value))
        | value => g.add o (some (String.ofList value))
      else (g.addKnown (some o) none).bind fun g => addShort options g cs

/-- The options at the front of a command line, up to the name of a command. -/
def scan (options : List CommandOption) (commands : List String) (g : GivenOptions) :
    List String → Except Refusal (GivenOptions × OptionsEnd)
  | [] => .ok (g, .exhausted)
  | arg :: rest =>
    if !g.awaitsValue && commands.contains arg then .ok (g, .command arg rest)
    else
      match arg.toList with
      | ['-', '-'] => if rest.isEmpty then .ok (g, .exhausted) else .error .usage
      | '-' :: '-' :: cs => (addLong options g cs).bind fun g => scan options commands g rest
      | '-' :: c :: cs => (addShort options g (c :: cs)).bind fun g => scan options commands g rest
      | _ => if g.awaitsValue then scan options commands (g.supply arg) rest else .error .usage

/-- The options of a command line that holds nothing else. -/
def readAll (options : List CommandOption) (args : List String) : Except Refusal GivenOptions := do
  let (g, _) ← scan options [] empty args
  g.settle

end GivenOptions

end ConfigSchema
