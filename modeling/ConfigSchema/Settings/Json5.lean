import ConfigSchema.Decimal.Numeral
import ConfigSchema.Settings.Nested

/-!
Settings in JSON5: JSON with comments, bare names, strings in quotes of either kind, and numbers
with signs, in base sixteen, or without digits on one side of the point.
-/

namespace ConfigSchema.Json5

open Numeral

def isLineEnd (c : Char) : Bool := c = '\n' || c = '\r' || c = '\u2028' || c = '\u2029'

/-- The character of an escape letter; digits have none, and all others stand for themselves. -/
def unescape? (c : Char) : Option Char :=
  if c.isDigit then none
  else if c = 'b' then some '\x08'
  else if c = 't' then some '\t'
  else if c = 'n' then some '\n'
  else if c = 'v' then some '\x0b'
  else if c = 'f' then some '\x0c'
  else if c = 'r' then some '\r'
  else some c

/-- The characters of a string up to its closing quote; `done` holds those before, last one
first. -/
def body (quote : Char) (done : List Char) : List Char → Option (String × List Char)
  | [] => none
  | '\\' :: 'x' :: a :: b :: cs => do body quote ((← codePoint? [a, b]) :: done) cs
  | '\\' :: 'u' :: a :: b :: c :: d :: cs => do
    body quote ((← codePoint? [a, b, c, d]) :: done) cs
  | '\\' :: '\r' :: '\n' :: cs => body quote done cs
  | '\\' :: '0' :: cs =>
    if cs.head?.any Char.isDigit then none else body quote ('\x00' :: done) cs
  | '\\' :: c :: cs =>
    if isLineEnd c then body quote done cs
    else if c = 'x' || c = 'u' then none
    else do body quote ((← unescape? c) :: done) cs
  | c :: cs =>
    if c = quote then some (String.ofList done.reverse, cs)
    else if c = '\n' || c = '\r' || c = '\\' then none
    else body quote (c :: done) cs

def isNameChar (c : Char) : Bool := c.isAlphanum || c = '_' || c = '$'

/-- A name in front of a value, in quotes or bare. -/
def name : List Char → Option (String × List Char)
  | [] => none
  | c :: cs =>
    if c = '"' || c = '\'' then body c [] cs
    else if isNameChar c && !c.isDigit then
      some (String.ofList (c :: cs.takeWhile isNameChar), cs.dropWhile isNameChar)
    else none

/-- The digits of a numeral in base sixteen, the value of which fits 32 bits. -/
def hex? : List Char → Option Nat
  | '0' :: x :: d :: ds =>
    if x = 'x' || x = 'X' then (ofDigits? 16 (d :: ds)).filter (· < 4294967296) else none
  | _ => none

/-- The value of a numeral. Numerals without a point and an exponent are integers of 64 bits, and
other numerals may not overflow. -/
def number? (cs : List Char) : Option SettingValue :=
  let (negative, ds) := takeSign cs
  if cs = "Infinity".toList || cs = "-Infinity".toList then some (.double (.infinite negative))
  else if ds = "NaN".toList then some (.double .nan)
  else
    match hex? cs with
    | some n => some (.integer n)
    | none =>
      let (whole, rest) := takeDigits ds
      if whole.length > 1 && whole.head? = some '0' then none
      else if rest.isEmpty then
        if whole.isEmpty then none
        else (signedWord? negative (Nat.ofDigitChars 10 whole 0)).map .integer
      else
        match ExtendedDouble.ofText? cs with
        | some (.finite x) => some (.double (.finite x))
        | _ => none

/-- The characters of words and numerals. -/
def isWordChar (c : Char) : Bool := c.isAlphanum || c = '+' || c = '-' || c = '.'

/-- A text, a word or a number. -/
def atom : List Char → Option (SettingValue × List Char)
  | [] => none
  | c :: cs =>
    if c = '"' || c = '\'' then (body c [] cs).map fun (s, cs) => (.string s, cs)
    else
      let word := (c :: cs).takeWhile isWordChar
      let v :=
        if word = "null".toList then some .blank
        else if word = "true".toList then some (.bool true)
        else if word = "false".toList then some (.bool false)
        else number? word
      v.map fun v => (v, (c :: cs).dropWhile isWordChar)

def opening : List Char → Option (BracketContent × List Char)
  | '\x7b' :: cs => some (.fields '\x7d' name, cs)
  | '[' :: cs => some (.items ']' .array, cs)
  | _ => none

def style : NestedStyle := ⟨NestedStyle.skipComments isLineEnd .code, opening, atom⟩

/-- The fields of the table that a text describes. -/
def fields? (text : String) : Option (SortedMap String SettingValue) :=
  (style.all? text.toList).bind SettingValue.fields?

end ConfigSchema.Json5
