import ConfigSchema.Settings.Toml.DateTime
import ConfigSchema.Settings.Toml.Node
import ConfigSchema.Settings.Toml.Quoted
import ConfigSchema.Settings.Toml.Scalar

/-!
The statements of a TOML text, line by line. Keys are dotted, lists and long strings may run over
several lines, and everything else ends with its line.
-/

namespace ConfigSchema.Toml

/-- A statement opens a table, which may be one more of a list, or gives a value to a key of the open
table. -/
inductive Statement
  | header (listed : Bool) (path : List String)
  | assign (path : List String) (value : SettingValue)

def skipSpace (cs : List Char) : List Char := cs.dropWhile fun c => c = ' ' || c = '\t'

/-- The rest after blanks, ends of lines and comments; `comment` tells that a comment has begun. -/
def skipLines (comment : Bool) : List Char → List Char
  | [] => []
  | '\r' :: '\n' :: cs => skipLines false cs
  | c :: cs =>
    if c = '\n' then skipLines false cs
    else if comment then if isText c then skipLines true cs else c :: cs
    else if c = '#' then skipLines true cs
    else if c = ' ' || c = '\t' then skipLines false cs
    else c :: cs

def isNameChar (c : Char) : Bool := c.isAlphanum || c = '_' || c = '-'

/-- One name of a key, in quotes or bare. -/
def name : List Char → Option (String × List Char)
  | [] => none
  | c :: cs =>
    if c = '"' then basicBody [] cs
    else if c = '\'' then literalBody [] cs
    else if isNameChar c then
      some (String.ofList (c :: cs.takeWhile isNameChar), cs.dropWhile isNameChar)
    else none

/-- The names of a key with points between them, and the rest after blanks. -/
def names : Nat → List Char → Option (List String × List Char)
  | 0, _ => none
  | fuel + 1, cs =>
    match name cs with
    | none => none
    | some (w, cs) =>
      match skipSpace cs with
      | '.' :: cs => (names fuel (skipSpace cs)).map fun (ws, cs) => (w :: ws, cs)
      | cs => some ([w], cs)

/-- Keys and nested values are refused from this depth on. -/
def depthLimit : Nat := 80

/-- A key, and the rest after blanks. -/
def key (cs : List Char) : Option (List String × List Char) :=
  (names (cs.length + 1) cs).filter fun p => p.1.length < depthLimit

mutual

/-- A value with as many lists and tables inside one another as `depth` allows. -/
def value (depth : Nat) : Nat → List Char → Option (SettingValue × List Char)
  | 0, _ => none
  | _, [] => none
  | fuel + 1, c :: cs =>
    if c = '"' then (basicString cs).map fun (s, cs) => (.string s, cs)
    else if c = '\'' then (literalString cs).map fun (s, cs) => (.string s, cs)
    else if c = '[' then
      if depth = 0 then none
      else
        (items (depth - 1) fuel (skipLines false cs)).map fun (vs, cs) => (.array vs, cs)
    else if c = '\x7b' then
      match depth, skipSpace cs with
      | 0, _ => none
      | _, '\x7d' :: cs => some (.table .nil, cs)
      | depth + 1, cs =>
        (pairs depth fuel cs).bind fun (ps, cs) => (tableOf? ps).map fun v => (v, cs)
    else
      match dateTime (c :: cs) with
      | some (text, cs) => some (.string (String.ofList text), cs)
      | none =>
        (scalar? ((c :: cs).takeWhile isScalarChar)).map fun v =>
          (v, (c :: cs).dropWhile isScalarChar)

/-- The items of a list up to its closing bracket, before which a comma may stand. -/
def items (depth : Nat) : Nat → List Char → Option (List SettingValue × List Char)
  | 0, _ => none
  | _, ']' :: cs => some ([], cs)
  | fuel + 1, cs =>
    match value depth fuel cs with
    | none => none
    | some (v, cs) =>
      match skipLines false cs with
      | ',' :: cs => (items depth fuel (skipLines false cs)).map fun (vs, cs) => (v :: vs, cs)
      | ']' :: cs => some ([v], cs)
      | _ => none

/-- The keys and values of a table up to its closing brace. They stand on one line, with no comma
behind the last one. -/
def pairs (depth : Nat) : Nat → List Char →
    Option (List (List String × SettingValue) × List Char)
  | 0, _ => none
  | fuel + 1, cs =>
    match key cs with
    | some (path, '=' :: cs) =>
      match value depth fuel (skipSpace cs) with
      | none => none
      | some (v, cs) =>
        match skipSpace cs with
        | ',' :: cs =>
          (pairs depth fuel (skipSpace cs)).map fun (ps, cs) => ((path, v) :: ps, cs)
        | '\x7d' :: cs => some ([(path, v)], cs)
        | _ => none
    | _ => none

end

/-- The header behind its first bracket, and the rest. A table of a list has two brackets on either
side. -/
def header : List Char → Option (Statement × List Char)
  | '[' :: cs =>
    match key (skipSpace cs) with
    | some (path, ']' :: ']' :: cs) => some (.header true path, cs)
    | _ => none
  | cs =>
    match key (skipSpace cs) with
    | some (path, ']' :: cs) => some (.header false path, cs)
    | _ => none

/-- The statement at the front of a line, if there is one, and the rest. -/
def statement (cs : List Char) : Option (Option Statement × List Char) :=
  match skipSpace cs with
  | [] => some (none, [])
  | c :: cs =>
    if c = '[' then (header cs).map fun (s, cs) => (some s, cs)
    else if c = '#' ∨ c = '\n' ∨ c = '\r' then some (none, c :: cs)
    else
      match key (c :: cs) with
      | some (path, '=' :: cs) =>
        (value (depthLimit - 1) (2 * cs.length + 1) (skipSpace cs)).map fun (v, cs) =>
          (some (.assign path v), cs)
      | _ => none

/-- The rest after a blank or commented end of a line. -/
def lineEnd (cs : List Char) : Option (List Char) :=
  let cs := match skipSpace cs with
    | '#' :: cs => cs.dropWhile isText
    | cs => cs
  match cs with
  | [] => some []
  | '\n' :: cs => some cs
  | '\r' :: '\n' :: cs => some cs
  | _ => none

def statements : Nat → List Char → Option (List Statement)
  | 0, _ => none
  | _, [] => some []
  | fuel + 1, cs => do
    let (s, cs) ← statement cs
    let cs ← lineEnd cs
    let ss ← statements fuel cs
    return s.toList ++ ss

/-- The statements of a text, which may begin with a byte order mark. -/
def statementsOf? (text : String) : Option (List Statement) :=
  let cs := match text.toList with
    | '\uFEFF' :: cs => cs
    | cs => cs
  statements (cs.length + 1) cs

end ConfigSchema.Toml
