import ConfigSchema.Json.Basic

/-!
JSON documents: what is written, with the fields of each object in a chosen order. A document is
written in compact form or with indentation, and stands for one JSON value (`Document.value`).
The writers put the text in front of what follows it, so no text is copied twice.
-/

namespace ConfigSchema

inductive Document
  | null
  | bool (b : Bool)
  | number (n : JsonNumber)
  | string (s : String)
  | array (items : List Document)
  | object (members : List (String × Document))

namespace Document

instance : Inhabited Document := ⟨null⟩

def ofWord (n : UInt64) : Document := number (.integer (.ofWord n))

/-- The digit of a hexadecimal number below sixteen. -/
def hexDigit (n : Nat) : Char := Nat.digitChar n

/-- Quotes, backslashes and controls are escaped; all else stands for itself. -/
def escape (c : Char) : List Char :=
  if c = '"' then ['\\', '"']
  else if c = '\\' then ['\\', '\\']
  else if c = '\x08' then ['\\', 'b']
  else if c = '\t' then ['\\', 't']
  else if c = '\n' then ['\\', 'n']
  else if c = '\x0c' then ['\\', 'f']
  else if c = '\r' then ['\\', 'r']
  else if c.toNat < 32 then
    ['\\', 'u', '0', '0', hexDigit (c.toNat / 16), hexDigit (c.toNat % 16)]
  else [c]

/-- The characters of a string in quotes, in front of the rest. -/
def quoteOnto (s : String) (rest : List Char) : List Char :=
  '"' :: s.toList.foldr (fun c r => escape c ++ r) ('"' :: rest)

def literal (b : Bool) : List Char := if b then "true".toList else "false".toList

mutual

/-- The compact text in front of the rest. -/
def writeOnto : Document → List Char → List Char
  | null, rest => "null".toList ++ rest
  | bool b, rest => literal b ++ rest
  | number n, rest => n.text ++ rest
  | string s, rest => quoteOnto s rest
  | array [], rest => '[' :: ']' :: rest
  | array (d :: ds), rest => '[' :: d.writeOnto (writeItems ds rest)
  | object [], rest => '\x7b' :: '\x7d' :: rest
  | object ((name, d) :: ms), rest =>
    '\x7b' :: quoteOnto name (':' :: d.writeOnto (writeMembers ms rest))

def writeItems : List Document → List Char → List Char
  | [], rest => ']' :: rest
  | d :: ds, rest => ',' :: d.writeOnto (writeItems ds rest)

def writeMembers : List (String × Document) → List Char → List Char
  | [], rest => '\x7d' :: rest
  | (name, d) :: ms, rest => ',' :: quoteOnto name (':' :: d.writeOnto (writeMembers ms rest))

end

/-- The compact text. -/
def compact (d : Document) : String := String.ofList (d.writeOnto [])

/-- A new line with two spaces for each level. -/
def newLine (level : Nat) (rest : List Char) : List Char :=
  '\n' :: (List.replicate (2 * level) ' ' ++ rest)

mutual

/-- The indented text in front of the rest, at a level of nesting. -/
def indentOnto (level : Nat) : Document → List Char → List Char
  | null, rest => "null".toList ++ rest
  | bool b, rest => literal b ++ rest
  | number n, rest => n.text ++ rest
  | string s, rest => quoteOnto s rest
  | array [], rest => '[' :: ']' :: rest
  | array (d :: ds), rest =>
    '[' :: newLine (level + 1) (d.indentOnto (level + 1) (indentItems level ds rest))
  | object [], rest => '\x7b' :: '\x7d' :: rest
  | object ((name, d) :: ms), rest =>
    '\x7b' :: newLine (level + 1) (quoteOnto name (':' :: ' ' ::
      d.indentOnto (level + 1) (indentMembers level ms rest)))

def indentItems (level : Nat) : List Document → List Char → List Char
  | [], rest => newLine level (']' :: rest)
  | d :: ds, rest =>
    ',' :: newLine (level + 1) (d.indentOnto (level + 1) (indentItems level ds rest))

def indentMembers (level : Nat) : List (String × Document) → List Char → List Char
  | [], rest => newLine level ('\x7d' :: rest)
  | (name, d) :: ms, rest =>
    ',' :: newLine (level + 1) (quoteOnto name (':' :: ' ' ::
      d.indentOnto (level + 1) (indentMembers level ms rest)))

end

/-- The text with one element on each line. -/
def indented (d : Document) : String := String.ofList (d.indentOnto 0 [])

mutual

/-- The value that the document stands for. -/
def value : Document → Json
  | null => .null
  | bool b => .bool b
  | number n => .number n
  | string s => .string s
  | array ds => .array (values ds)
  | object ms => .object (.ofList (memberValues ms))

def values : List Document → List Json
  | [] => []
  | d :: ds => d.value :: values ds

def memberValues : List (String × Document) → List (String × Json)
  | [] => []
  | (name, d) :: ms => (name, d.value) :: memberValues ms

end

/-- An object with one member. -/
def tagged (name : String) (d : Document) : Document := object [(name, d)]

end Document

namespace Json

mutual

/-- The document of a value, with the fields of objects in ascending order. -/
def document : Json → Document
  | null => .null
  | bool b => .bool b
  | number n => .number n
  | string s => .string s
  | array items => .array (documents items)
  | object fields => .object (fieldDocuments fields)

def documents : List Json → List Document
  | [] => []
  | j :: js => j.document :: documents js

def fieldDocuments {lo : Option String} : Entries String Json lo → List (String × Document)
  | .nil => []
  | .cons name _ j rest => (name, j.document) :: fieldDocuments rest

end

end Json

/-- The members of a map, in ascending order of their names. -/
def Entries.documentsOf {α : Type} {lo : Option String} (m : Entries String α lo)
    (document : α → Document) : List (String × Document) :=
  m.toList.map fun p => (p.1, document p.2)

end ConfigSchema
