import ConfigSchema.Decimal.Numeral
import ConfigSchema.Settings.Value
import ConfigSchema.Text.Blank

/-!
Settings in INI notation. A text has sections with names in brackets, and properties with a colon or
an equals sign between the key and the value. Values are texts, and a backslash starts an escape
everywhere. Comments take whole lines.
-/

namespace ConfigSchema.Ini

/-- A line opens a section or gives a property. -/
inductive Line
  | heading (name : List Char)
  | property (key value : List Char)

/-- The character of an escape letter; all others stand for themselves. -/
def unescape (c : Char) : Char :=
  if c = '0' then '\x00'
  else if c = 'a' then '\x07'
  else if c = 'b' then '\x08'
  else if c = 't' then '\t'
  else if c = 'r' then '\r'
  else if c = 'n' then '\n'
  else c

/-- The text before a character that stops it, and the rest; `endStops` tells whether the end of
everything stops it, too. -/
def textUntil (stop : Char → Bool) (endStops : Bool) : List Char → Option (List Char × List Char)
  | [] => if endStops then some ([], []) else none
  | '\\' :: 'x' :: a :: b :: c :: d :: cs => do
    let e ← Numeral.codePoint? [a, b, c, d]
    let (text, rest) ← textUntil stop endStops cs
    return (e :: text, rest)
  | '\\' :: '\n' :: cs => textUntil stop endStops cs
  | '\\' :: c :: cs => do
    if c = 'x' then none
    else
      let (text, rest) ← textUntil stop endStops cs
      return (unescape c :: text, rest)
  | c :: cs =>
    if stop c then some ([], c :: cs)
    else if c = '\\' then none
    else (textUntil stop endStops cs).map fun (text, rest) => (c :: text, rest)

def isLineEnd (c : Char) : Bool := c = '\n' || c = '\r'

/-- The value behind the sign of a property. What stands in quotes is kept as it is, and the rest of
the line follows it. -/
def value (cs : List Char) : Option (List Char × List Char) :=
  match cs.dropWhile fun c => Text.isBlank c && !isLineEnd c with
  | [] => some ([], [])
  | c :: cs =>
    if c = '"' || c = '\'' then do
      let (quoted, cs) ← textUntil (· == c) false cs
      let (more, rest) ← textUntil isLineEnd true (cs.drop 1)
      return (quoted ++ more, rest)
    else (textUntil isLineEnd true (c :: cs)).map fun (text, rest) => (Text.trim text, rest)

/-- The rest after white space, and whether it begins a line. -/
def skipBlank (fresh : Bool) : List Char → Bool × List Char
  | [] => (fresh, [])
  | c :: cs => if Text.isBlank c then skipBlank (c = '\n') cs else (fresh, c :: cs)

/-- The lines of a text; `fresh` tells that the text begins a line, and `key` is the key that waits
for its value, if it is not empty. -/
def lines : Nat → Bool → List Char → List Char → Option (List Line)
  | 0, _, _, _ => none
  | fuel + 1, fresh, key, cs =>
    let (fresh, cs) := skipBlank fresh cs
    match cs with
    | [] => some []
    | c :: cs =>
      if c = ';' || c = '#' then
        if fresh then lines fuel true key ((cs.dropWhile (· ≠ '\n')).drop 1) else none
      else if c = '[' then do
        let (name, cs) ← textUntil (· == ']') false cs
        return .heading (Text.trim name) :: (← lines fuel false key (cs.drop 1))
      else if c = '=' || c = ':' then
        if key = [] then none
        else do
          let (value, cs) ← value cs
          return .property key value :: (← lines fuel false [] cs)
      else do
        let (key, cs) ← textUntil (fun c => c = '=' || c = ':') false (c :: cs)
        lines fuel false (Text.trim key) cs

/-- The section that is open after a line, and the fields. A later section of a name takes the place
of an earlier one. -/
def addLine (state : Option String × SortedMap String SettingValue) :
    Line → Option String × SortedMap String SettingValue
  | .heading name => (some (String.ofList name), state.2.insert (String.ofList name) (.table .nil))
  | .property key value =>
    let add (fields : SortedMap String SettingValue) : SortedMap String SettingValue :=
      fields.insert (String.ofList key) (.string (String.ofList value))
    match state.1 with
    | none => (none, add state.2)
    | some name =>
      let inner := ((state.2.get? name).getD .blank).fields
      (some name, state.2.insert name (.table (add inner)))

/-- The fields of the table that a text describes. -/
def fields? (text : String) : Option (SortedMap String SettingValue) :=
  let cs := text.toList
  (lines (cs.length + 1) true [] cs).map fun ls => (ls.foldl addLine (none, .nil)).2

end ConfigSchema.Ini
