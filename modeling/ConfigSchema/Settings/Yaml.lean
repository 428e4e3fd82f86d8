import ConfigSchema.Decimal.Numeral
import ConfigSchema.Settings.Nested
import ConfigSchema.Text.Split

/-!
Settings in YAML: one document of maps and lists, by indentation or in brackets on one line, and of
scalars on one line. A text may also stand in brackets as a whole. Anchors, tags and blocks of text
are not read.
-/

namespace ConfigSchema.Yaml

open Numeral

/-- A line that is not blank, without its indentation and comment. -/
structure Line where
  indent : Nat
  content : List Char

def isSpace (c : Char) : Bool := c = ' ' || c = '\t' || c = '\r'

def trim (cs : List Char) : List Char :=
  ((cs.dropWhile isSpace).reverse.dropWhile isSpace).reverse

/-- A text up to a comment; `last` is the character before, and `quote` the quote that is open. -/
def uncomment (last : Char) : Option Char → List Char → List Char
  | some '"', '\\' :: c :: cs => '\\' :: c :: uncomment c (some '"') cs
  | some quote, c :: cs => c :: uncomment c (if c = quote then none else some quote) cs
  | none, c :: cs =>
    let fresh := isSpace last || last = '[' || last = '\x7b' || last = ','
    if c = '#' && isSpace last then []
    else c :: uncomment c (if fresh && (c = '"' || c = '\'') then some c else none) cs
  | _, [] => []

/-- The lines of a text that are not blank. Tabulators do not indent. -/
def lines (cs : List Char) : List Line :=
  ((Text.splitAt '\n' cs).map fun line =>
    ⟨(line.takeWhile (· = ' ')).length, trim (uncomment ' ' none line)⟩).filter
      fun line => !line.content.isEmpty

/-- The character of an escape letter. -/
def unescape? (c : Char) : Option Char :=
  if c = '"' || c = '\'' || c = '\\' || c = '/' || c = ' ' || c = '\t' then some c
  else if c = '0' then some '\x00'
  else if c = 'a' then some '\x07'
  else if c = 'b' then some '\x08'
  else if c = 't' then some '\t'
  else if c = 'n' then some '\n'
  else if c = 'v' then some '\x0b'
  else if c = 'f' then some '\x0c'
  else if c = 'r' then some '\r'
  else if c = 'e' then some '\x1b'
  else none

/-- The characters between double quotes; `done` holds those before, last one first. -/
def doubleQuoted (done : List Char) : List Char → Option (String × List Char)
  | [] => none
  | '"' :: cs => some (String.ofList done.reverse, cs)
  | '\\' :: 'x' :: a :: b :: cs => do doubleQuoted ((← codePoint? [a, b]) :: done) cs
  | '\\' :: 'u' :: a :: b :: c :: d :: cs => do
    doubleQuoted ((← codePoint? [a, b, c, d]) :: done) cs
  | '\\' :: c :: cs => do doubleQuoted ((← unescape? c) :: done) cs
  | c :: cs => if c = '\n' then none else doubleQuoted (c :: done) cs

/-- The characters between single quotes, one of which is doubled to stand for itself. -/
def singleQuoted (done : List Char) : List Char → Option (String × List Char)
  | [] => none
  | '\'' :: '\'' :: cs => singleQuoted ('\'' :: done) cs
  | '\'' :: cs => some (String.ofList done.reverse, cs)
  | c :: cs => if c = '\n' then none else singleQuoted (c :: done) cs

def quoted? : List Char → Option (String × List Char)
  | '"' :: cs => doubleQuoted [] cs
  | '\'' :: cs => singleQuoted [] cs
  | _ => none

/-- An integer of 64 bits, in base sixteen, eight or ten. -/
def integer? : List Char → Option Int
  | '0' :: 'x' :: d :: ds => (ofDigits? 16 (d :: ds)).bind (signedWord? false)
  | '0' :: 'o' :: d :: ds => (ofDigits? 8 (d :: ds)).bind (signedWord? false)
  | cs =>
    let (negative, ds) := takeSign cs
    if ds.isEmpty || !ds.all Char.isDigit then none
    else signedWord? negative (Nat.ofDigitChars 10 ds 0)

/-- The value of a word without quotes. -/
def plain (cs : List Char) : SettingValue :=
  if cs.isEmpty || cs = ['~'] || cs = "null".toList then .blank
  else if cs = "true".toList then .bool true
  else if cs = "false".toList then .bool false
  else
    match integer? cs with
    | some n => .integer n
    | none =>
      match ExtendedDouble.ofText? cs with
      | some x => .double x
      | none => .string (String.ofList cs)

/-- Signs with which a word cannot begin. -/
def isIndicator (c : Char) : Bool :=
  c ∈ ['|', '>', '&', '*', '!', '%', '@', ',', ']', '\x7d', '#']

/-- A word up to a colon that has a blank or nothing behind it, or up to a character that stops
it, and the rest. -/
def takePlain (stop : Char → Bool) : List Char → List Char × List Char
  | [] => ([], [])
  | c :: cs =>
    if stop c || (c = ':' && cs.head?.elim true fun d => isSpace d || d = '\n' || stop d) then
      ([], c :: cs)
    else ((takePlain stop cs).map (c :: ·) id)

/-- The characters that stop words in brackets. -/
def isFlowSign (c : Char) : Bool := c ∈ [',', '[', ']', '\x7b', '\x7d', '\n']

/-- A word in brackets. -/
def flowWord (cs : List Char) : Option (List Char × List Char) :=
  let (w, rest) := takePlain isFlowSign cs
  if (trim w).isEmpty || w.head?.any isIndicator then none else some (trim w, rest)

/-- The rest after blanks and ends of lines. -/
def skip (cs : List Char) : Option (List Char) :=
  some (cs.dropWhile fun c => isSpace c || c = '\n')

/-- A name in brackets, in quotes or bare. -/
def flowName (cs : List Char) : Option (String × List Char) :=
  (quoted? cs).or ((flowWord cs).map fun (w, cs) => (String.ofList w, cs))

/-- A scalar in brackets. -/
def flowAtom (cs : List Char) : Option (SettingValue × List Char) :=
  ((quoted? cs).map fun (s, cs) => (.string s, cs)).or
    ((flowWord cs).map fun (w, cs) => (plain w, cs))

def opening : List Char → Option (BracketContent × List Char)
  | '\x7b' :: cs => some (.fields '\x7d' flowName, cs)
  | '[' :: cs => some (.items ']' .array, cs)
  | _ => none

def flow : NestedStyle := ⟨skip, opening, flowAtom⟩

/-- The value to which all of a line amounts. -/
def inline? (cs : List Char) : Option SettingValue :=
  if cs.head? = some '[' || cs.head? = some '\x7b' then flow.all? cs
  else if cs.head? = some '"' || cs.head? = some '\'' then
    match quoted? cs with
    | some (s, []) => some (.string s)
    | _ => none
  else
    match takePlain (fun _ => false) cs with
    | (w, []) => if w.head?.any isIndicator then none else some (plain w)
    | _ => none

/-- The name at the front of a line, and what stands behind the colon. -/
def named? (cs : List Char) : Option (String × List Char) :=
  let front := match quoted? cs with
    | some (w, rest) => some (w, rest.dropWhile isSpace)
    | none =>
      let (w, rest) := takePlain (fun _ => false) cs
      if w.isEmpty || w.head?.any isIndicator || cs.head? = some '[' || cs.head? = some '\x7b' then
        none
      else some (String.ofList (trim w), rest)
  match front with
  | some (w, ':' :: rest) =>
    if rest.head?.elim true isSpace then some (w, trim rest) else none
  | _ => none

/-- The line is an item of a list. -/
def isItem (cs : List Char) : Bool := cs = ['-'] || ['-', ' '].isPrefixOf cs

mutual

/-- The value of the lines from the first one on that have its indentation or more. -/
def block : Nat → List Line → Option (SettingValue × List Line)
  | 0, _ => none
  | _, [] => some (.blank, [])
  | fuel + 1, line :: rest =>
    if isItem line.content then
      (items line.indent fuel (line :: rest)).map fun (vs, rest) => (.array vs, rest)
    else if (named? line.content).isSome then
      (fields line.indent fuel (line :: rest)).map fun (pairs, rest) =>
        (.table (.ofList pairs), rest)
    else (inline? line.content).map fun v => (v, rest)

/-- The value behind a name or a dash: the rest of the line, or the lines below that `belongs`
accepts. -/
def below (belongs : Line → Bool) (content : List Char) : Nat → List Line →
    Option (SettingValue × List Line)
  | 0, _ => none
  | fuel + 1, rest =>
    if content ≠ [] then (inline? content).map fun v => (v, rest)
    else if rest.head?.any belongs then block fuel rest
    else some (.blank, rest)

/-- The names and values with an indentation. -/
def fields (indent : Nat) : Nat → List Line → Option (List (String × SettingValue) × List Line)
  | 0, _ => none
  | _, [] => some ([], [])
  | fuel + 1, line :: rest =>
    if line.indent < indent then some ([], line :: rest)
    else if line.indent > indent then none
    else do
      let (w, content) ← named? line.content
      let (v, rest) ← below
        (fun next => next.indent > indent || (next.indent = indent && isItem next.content))
        content fuel rest
      let (pairs, rest) ← fields indent fuel rest
      return ((w, v) :: pairs, rest)

/-- The items with an indentation. -/
def items (indent : Nat) : Nat → List Line → Option (List SettingValue × List Line)
  | 0, _ => none
  | _, [] => some ([], [])
  | fuel + 1, line :: rest =>
    if line.indent > indent then none
    else if line.indent < indent || !isItem line.content then some ([], line :: rest)
    else do
      let content := (line.content.drop 1).dropWhile isSpace
      let (v, rest) ←
        if isItem content || (named? content).isSome then
          block fuel (⟨indent + (line.content.length - content.length), content⟩ :: rest)
        else below (·.indent > indent) content fuel rest
      let (vs, rest) ← items indent fuel rest
      return (v :: vs, rest)

end

/-- The fields of the table that a text describes. Without a line there are none. -/
def fields? (text : String) : Option (SortedMap String SettingValue) :=
  let cs := text.toList
  let first := cs.dropWhile fun c => isSpace c || c = '\n'
  if first.head? = some '\x7b' then (flow.all? cs).bind SettingValue.fields?
  else
    match lines cs with
    | [] => some .nil
    | line :: rest =>
      let ls := if line.indent = 0 && line.content = "---".toList then rest else line :: rest
      match block (3 * cs.length + 3) ls with
      | some (.table fields, []) => some fields
      | _ => none

end ConfigSchema.Yaml
