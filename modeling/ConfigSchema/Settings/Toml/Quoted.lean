import ConfigSchema.Decimal.Numeral

/-!
Reading strings of TOML. A basic string stands between double quotes and has escapes; a literal
string stands between single quotes and has none. Three quotes on either side make a long string,
which may run over several lines.
-/

namespace ConfigSchema.Toml

open Numeral

/-- The characters of comments and strings: the tabulator and all that is not a control of ASCII. -/
def isText (c : Char) : Bool := c = '\t' || (32 ≤ c.toNat && c.toNat ≠ 127)

/-- The character of an escape letter. -/
def unescape? (c : Char) : Option Char :=
  if c = '"' ∨ c = '\\' then some c
  else if c = 'b' then some '\x08'
  else if c = 't' then some '\t'
  else if c = 'n' then some '\n'
  else if c = 'f' then some '\x0c'
  else if c = 'r' then some '\r'
  else none

/-- The characters of a basic string up to its closing quote; `done` holds those before, last one
first. -/
def basicBody (done : List Char) : List Char → Option (String × List Char)
  | [] => none
  | '"' :: rest => some (String.ofList done.reverse, rest)
  | '\\' :: 'u' :: a :: b :: c :: d :: rest =>
    match codePoint? [a, b, c, d] with
    | none => none
    | some e => basicBody (e :: done) rest
  | '\\' :: 'U' :: a :: b :: c :: d :: e :: f :: g :: h :: rest =>
    match codePoint? [a, b, c, d, e, f, g, h] with
    | none => none
    | some e => basicBody (e :: done) rest
  | '\\' :: c :: rest =>
    match unescape? c with
    | none => none
    | some e => basicBody (e :: done) rest
  | c :: rest => if isText c then basicBody (c :: done) rest else none

/-- The characters of a literal string up to its closing quote. -/
def literalBody (done : List Char) : List Char → Option (String × List Char)
  | [] => none
  | c :: rest =>
    if c = '\'' then some (String.ofList done.reverse, rest)
    else if isText c then literalBody (c :: done) rest
    else none

/-- The rest after an end of a line, if there is one. -/
def dropLineEnd : List Char → List Char
  | '\n' :: cs => cs
  | '\r' :: '\n' :: cs => cs
  | cs => cs

/-- The rest after blanks and ends of lines. -/
def skipGap : List Char → List Char
  | [] => []
  | '\r' :: '\n' :: cs => skipGap cs
  | c :: cs => if c = ' ' || c = '\t' || c = '\n' then skipGap cs else c :: cs

/-- The rest behind a backslash that ends a line and takes the gap after it away. -/
def joinedLine? (cs : List Char) : Option (List Char) :=
  match cs.dropWhile fun c => c = ' ' || c = '\t' with
  | '\n' :: cs => some (skipGap cs)
  | '\r' :: '\n' :: cs => some (skipGap cs)
  | _ => none

/-- The characters of a long basic string up to its closing quotes, before which two more quotes may
stand. -/
def longBasicBody (done : List Char) : Nat → List Char → Option (String × List Char)
  | 0, _ => none
  | _, [] => none
  | _, '"' :: '"' :: '"' :: '"' :: '"' :: rest =>
    some (String.ofList ('"' :: '"' :: done).reverse, rest)
  | _, '"' :: '"' :: '"' :: '"' :: rest => some (String.ofList ('"' :: done).reverse, rest)
  | _, '"' :: '"' :: '"' :: rest => some (String.ofList done.reverse, rest)
  | fuel + 1, '\\' :: 'u' :: a :: b :: c :: d :: rest =>
    match codePoint? [a, b, c, d] with
    | none => none
    | some e => longBasicBody (e :: done) fuel rest
  | fuel + 1, '\\' :: 'U' :: a :: b :: c :: d :: e :: f :: g :: h :: rest =>
    match codePoint? [a, b, c, d, e, f, g, h] with
    | none => none
    | some e => longBasicBody (e :: done) fuel rest
  | fuel + 1, '\\' :: c :: rest =>
    match joinedLine? (c :: rest), unescape? c with
    | some rest, _ => longBasicBody done fuel rest
    | none, some e => longBasicBody (e :: done) fuel rest
    | none, none => none
  | fuel + 1, '\r' :: '\n' :: rest => longBasicBody ('\n' :: done) fuel rest
  | fuel + 1, c :: rest =>
    if c = '\n' || isText c then longBasicBody (c :: done) fuel rest else none

/-- The characters of a long literal string up to its closing quotes, before which two more quotes
may stand. -/
def longLiteralBody (done : List Char) : List Char → Option (String × List Char)
  | [] => none
  | '\'' :: '\'' :: '\'' :: '\'' :: '\'' :: rest =>
    some (String.ofList ('\'' :: '\'' :: done).reverse, rest)
  | '\'' :: '\'' :: '\'' :: '\'' :: rest => some (String.ofList ('\'' :: done).reverse, rest)
  | '\'' :: '\'' :: '\'' :: rest => some (String.ofList done.reverse, rest)
  | '\r' :: '\n' :: rest => longLiteralBody ('\n' :: done) rest
  | c :: rest => if c = '\n' || isText c then longLiteralBody (c :: done) rest else none

/-- The string behind a double quote that opens a value. -/
def basicString : List Char → Option (String × List Char)
  | '"' :: '"' :: cs => longBasicBody [] (cs.length + 1) (dropLineEnd cs)
  | cs => basicBody [] cs

/-- The string behind a single quote that opens a value. -/
def literalString : List Char → Option (String × List Char)
  | '\'' :: '\'' :: cs => longLiteralBody [] (dropLineEnd cs)
  | cs => literalBody [] cs

end ConfigSchema.Toml
