import ConfigSchema.Decimal.Numeral
import ConfigSchema.Decimal.Scaled
import ConfigSchema.Json.Basic

/-!
Reading JSON text. Each reader takes what it recognises from the front of a text and returns the
rest. Nested values are read with fuel, and the length of the text is always enough.
-/

namespace ConfigSchema.Json.Reader

open Numeral

def skipBlank (cs : List Char) : List Char :=
  cs.dropWhile fun c => c = ' ' || c = '\t' || c = '\n' || c = '\r'

/-- The code unit of four hexadecimal digits. -/
def codeUnit (a b c d : Char) : Option Nat := do
  let a ← hexValue a
  let b ← hexValue b
  let c ← hexValue c
  let d ← hexValue d
  return ((a * 16 + b) * 16 + c) * 16 + d

def isHighSurrogate (n : Nat) : Bool := 0xD800 ≤ n && n < 0xDC00

def isLowSurrogate (n : Nat) : Bool := 0xDC00 ≤ n && n < 0xE000

/-- The character of an escape letter. -/
def unescape (c : Char) : Option Char :=
  if c = '"' ∨ c = '\\' ∨ c = '/' then some c
  else if c = 'b' then some '\x08'
  else if c = 't' then some '\t'
  else if c = 'n' then some '\n'
  else if c = 'f' then some '\x0c'
  else if c = 'r' then some '\r'
  else none

/-- The characters of a string up to its closing quote; `done` holds those before, last one first.
A high surrogate has to be followed by a low one. -/
def stringBody (done : List Char) : List Char → Option (String × List Char)
  | [] => none
  | '"' :: rest => some (String.ofList done.reverse, rest)
  | '\\' :: 'u' :: a :: b :: c :: d :: rest =>
    match codeUnit a b c d with
    | none => none
    | some n =>
      if isHighSurrogate n then
        match rest with
        | '\\' :: 'u' :: e :: f :: g :: h :: rest =>
          match codeUnit e f g h with
          | none => none
          | some m =>
            if isLowSurrogate m then
              stringBody (Char.ofNat (0x10000 + (n - 0xD800) * 0x400 + (m - 0xDC00)) :: done) rest
            else none
        | _ => none
      else if isLowSurrogate n then none
      else stringBody (Char.ofNat n :: done) rest
  | '\\' :: c :: rest =>
    match unescape c with
    | none => none
    | some e => stringBody (e :: done) rest
  | c :: rest => if c.toNat < 32 then none else stringBody (c :: done) rest

/-- The fraction of a number: a point and at least one digit, or nothing. -/
def fractionPart : List Char → Option (Option (List Char) × List Char)
  | '.' :: cs =>
    match takeDigits cs with
    | ([], _) => none
    | (ds, rest) => some (some ds, rest)
  | cs => some (none, cs)

/-- The double of a numeral, of which the leading digits that fit a word are kept. The other digits
of the whole part count for their places. -/
def doubleOf (negative : Bool) (whole fraction : List Char) (exponent : Int) : Option Double :=
  let (n, places) := takeWord 0 whole
  let (n, dropped) := takeWord n fraction
  Double.ofWordDecimal negative n
    (exponent + places.length - (fraction.length - dropped.length : Nat))

/-- An integer in the range of a word stays one, with the exception of negative zero; every other
number is a double. -/
def numberOf (negative : Bool) (whole : List Char) (fraction : Option (List Char))
    (exponent : Option Int) : Option JsonNumber :=
  let magnitude := Nat.ofDigitChars 10 whole 0
  let value : Int := if negative then -magnitude else magnitude
  if h : fraction = none ∧ exponent = none ∧ ¬(negative ∧ magnitude = 0) ∧
      -9223372036854775808 ≤ value ∧ value < 18446744073709551616 then
    some (.integer ⟨value, h.2.2.2⟩)
  else (doubleOf negative whole (fraction.getD []) (exponent.getD 0)).map .double

def number (cs : List Char) : Option (Json × List Char) := do
  let (negative, cs) := match cs with
    | '-' :: cs => (true, cs)
    | cs => (false, cs)
  let (whole, cs) := takeDigits cs
  if whole = [] ∨ (whole.length > 1 ∧ whole.head? = some '0') then none
  else
    let (fraction, cs) ← fractionPart cs
    let (exponent, cs) ← exponentPart cs
    let n ← numberOf negative whole fraction exponent
    return (.number n, cs)

/-- The rest after a word. -/
def word (w : String) (cs : List Char) : Option (List Char) :=
  if w.toList.isPrefixOf cs then some (cs.drop w.length) else none

mutual

def value : Nat → List Char → Option (Json × List Char)
  | 0, _ => none
  | fuel + 1, cs =>
    match skipBlank cs with
    | '\x7b' :: cs =>
      match skipBlank cs with
      | '\x7d' :: cs => some (.object .nil, cs)
      | cs => (members fuel cs).map fun (ms, cs) => (.object (.ofList ms), cs)
    | '[' :: cs =>
      match skipBlank cs with
      | ']' :: cs => some (.array [], cs)
      | cs => (items fuel cs).map fun (js, cs) => (.array js, cs)
    | '"' :: cs => (stringBody [] cs).map fun (s, cs) => (.string s, cs)
    | 'n' :: cs => (word "ull" cs).map fun cs => (.null, cs)
    | 't' :: cs => (word "rue" cs).map fun cs => (.bool true, cs)
    | 'f' :: cs => (word "alse" cs).map fun cs => (.bool false, cs)
    | cs => number cs

def items : Nat → List Char → Option (List Json × List Char)
  | 0, _ => none
  | fuel + 1, cs =>
    match value fuel cs with
    | none => none
    | some (j, cs) =>
      match skipBlank cs with
      | ']' :: cs => some ([j], cs)
      | ',' :: cs => (items fuel cs).map fun (js, cs) => (j :: js, cs)
      | _ => none

def members : Nat → List Char → Option (List (String × Json) × List Char)
  | 0, _ => none
  | fuel + 1, cs =>
    match skipBlank cs with
    | '"' :: cs =>
      match stringBody [] cs with
      | none => none
      | some (name, cs) =>
        match skipBlank cs with
        | ':' :: cs =>
          match value fuel cs with
          | none => none
          | some (j, cs) =>
            match skipBlank cs with
            | '\x7d' :: cs => some ([(name, j)], cs)
            | ',' :: cs => (members fuel cs).map fun (ms, cs) => ((name, j) :: ms, cs)
            | _ => none
        | _ => none
    | _ => none

end

end Reader

/-- The value of a JSON text. -/
def ofText? (text : String) : Option Json :=
  let cs := text.toList
  match Reader.value (2 * cs.length + 1) cs with
  | some (j, rest) => if (Reader.skipBlank rest).isEmpty then some j else none
  | none => none

end ConfigSchema.Json
