import ConfigSchema.Decimal.Numeral
import ConfigSchema.Settings.Nested

/-!
Settings in RON. Structures have fields in parentheses, with or without a name in front, and maps
have strings as keys.
-/

namespace ConfigSchema.Ron

open Numeral

def skip (cs : List Char) : Option (List Char) := NestedStyle.skipComments (· == '\n') .code cs

/-- The character of an escape letter. -/
def unescape? (c : Char) : Option Char :=
  if c = '"' || c = '\'' || c = '\\' then some c
  else if c = 'n' then some '\n'
  else if c = 'r' then some '\r'
  else if c = 't' then some '\t'
  else if c = '0' then some '\x00'
  else none

/-- The characters of a string up to its closing quote; `done` holds those before, last one
first. -/
def body (done : List Char) : Nat → List Char → Option (String × List Char)
  | 0, _ => none
  | _, [] => none
  | _, '"' :: cs => some (String.ofList done.reverse, cs)
  | fuel + 1, '\\' :: 'x' :: a :: b :: cs => do body ((← codePoint? [a, b]) :: done) fuel cs
  | fuel + 1, '\\' :: 'u' :: '\x7b' :: cs =>
    let ds := cs.takeWhile (· ≠ '\x7d')
    if ds.isEmpty || ds.length > 6 then none
    else do body ((← codePoint? ds) :: done) fuel ((cs.dropWhile (· ≠ '\x7d')).drop 1)
  | fuel + 1, '\\' :: c :: cs => do body ((← unescape? c) :: done) fuel cs
  | fuel + 1, c :: cs => if c = '\\' then none else body (c :: done) fuel cs

/-- A string in quotes. -/
def quoted : List Char → Option (String × List Char)
  | '"' :: cs => body [] (cs.length + 1) cs
  | _ => none

def isNameChar (c : Char) : Bool := c.isAlphanum || c = '_'

/-- A bare name. -/
def name (cs : List Char) : Option (String × List Char) :=
  match cs.takeWhile isNameChar with
  | [] => none
  | c :: w =>
    if c.isDigit then none else some (String.ofList (c :: w), cs.dropWhile isNameChar)

/-- The magnitude of an integer, in base ten or in another base. -/
def magnitude? : List Char → Option Nat
  | '0' :: 'x' :: d :: ds => ofDigits? 16 (d :: ds)
  | '0' :: 'o' :: d :: ds => ofDigits? 8 (d :: ds)
  | '0' :: 'b' :: d :: ds => ofDigits? 2 (d :: ds)
  | [] => none
  | ds => if ds.all Char.isDigit then some (Nat.ofDigitChars 10 ds 0) else none

/-- The value of a numeral, which may have underscores among its digits. Integers that do not fit 64
bits are doubles. -/
def number? (cs : List Char) : Option SettingValue :=
  let cs := cs.filter (· ≠ '_')
  let (negative, ds) := takeSign cs
  match magnitude? ds with
  | some n =>
    some (((signedWord? negative n).map SettingValue.integer).getD
      (.double (.ofDecimal negative n 0)))
  | none =>
    if ds = "inf".toList then some (.double (.infinite negative))
    else if ds = "NaN".toList then some (.double .nan)
    else if ds.head?.any Char.isAlpha then none
    else (ExtendedDouble.ofText? cs).map .double

/-- The characters of words and numerals. -/
def isWordChar (c : Char) : Bool := isNameChar c || c = '+' || c = '-' || c = '.'

/-- A text, a word or a number. A name without fields holds nothing. -/
def atom : List Char → Option (SettingValue × List Char)
  | '"' :: cs => (quoted ('"' :: cs)).map fun (s, cs) => (.string s, cs)
  | '\'' :: c :: '\'' :: cs => some (.string (String.singleton c), cs)
  | cs =>
    let word := cs.takeWhile isWordChar
    let v :=
      if word = "true".toList then some (.bool true)
      else if word = "false".toList then some (.bool false)
      else
        match number? word with
        | some v => some v
        | none => if (name word).any (·.2.isEmpty) then some .blank else none
    v.map fun v => (v, cs.dropWhile isWordChar)

/-- What an opening parenthesis begins: fields when a name and a colon follow, and a list
otherwise. Empty parentheses hold nothing. -/
def parentheses (cs : List Char) : BracketContent :=
  let isStructure := do
    let (_, cs) ← name (← skip cs)
    return (← skip cs).head? == some ':'
  if isStructure = some true then .fields ')' name
  else .items ')' fun vs => if vs.isEmpty then .blank else .array vs

def opening (cs : List Char) : Option (BracketContent × List Char) :=
  match cs with
  | '\x7b' :: cs => some (.fields '\x7d' quoted, cs)
  | '[' :: cs => some (.items ']' .array, cs)
  | '(' :: cs => some (parentheses cs, cs)
  | _ => do
    let (word, cs) ← name cs
    match ← skip cs with
    | '(' :: cs =>
      if word = "Some" then some (.items ')' fun vs => vs.head?.getD .blank, cs)
      else some (parentheses cs, cs)
    | _ => none

def style : NestedStyle := ⟨skip, opening, atom⟩

/-- The fields of the table that a text describes. -/
def fields? (text : String) : Option (SortedMap String SettingValue) :=
  (style.all? text.toList).bind SettingValue.fields?

end ConfigSchema.Ron
