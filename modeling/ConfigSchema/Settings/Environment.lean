import ConfigSchema.Settings.Layer

/-!
Settings in environment variables. The names begin with `TFSCHEMA__` in letters of any case, and two
underscores separate the parts of the path. Values are read as truth values, integers and
floating-point numbers as far as possible.
-/

namespace ConfigSchema.Environment

/-- The start of the names, in lower case. -/
def mark : List Char := "tfschema__".toList

/-- A text with every pair of separating underscores replaced by a point. -/
def separate : List Char → List Char
  | '_' :: '_' :: cs => '.' :: separate cs
  | c :: cs => c :: separate cs
  | [] => []

/-- The steps that a name in the environment stands for. -/
def steps? (name : String) : Option (List SettingStep) :=
  let cs := (SettingValue.lowerName name).toList
  if mark.isPrefixOf cs then some (SettingStep.ofKey (separate (cs.drop mark.length))) else none

/-- A signed integer of 64 bits, with an optional sign. -/
def integer? (cs : List Char) : Option Int :=
  let (negative, ds) := Numeral.takeSign cs
  if ds.isEmpty || !ds.all Char.isDigit then none
  else Numeral.signedWord? negative (Nat.ofDigitChars 10 ds 0)

def value (text : String) : SettingValue :=
  let name := SettingValue.lowerName text
  if name = "true" then .bool true
  else if name = "false" then .bool false
  else
    match integer? text.toList with
    | some n => .integer n
    | none =>
      match ExtendedDouble.ofText? text.toList with
      | some x => .double x
      | none => .string text

/-- The layer of the variables of an environment, in the order in which they are given. Among variables
with clashing names the order decides, and an environment has no fixed one. -/
def layer (entries : List (String × String)) : SettingLayer :=
  entries.filterMap fun p => (steps? p.1).map fun steps => (steps, value p.2)

end ConfigSchema.Environment
