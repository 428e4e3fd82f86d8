import ConfigSchema.Settings.Toml.Quoted

/-!
Writing strings of TOML. Of the four forms, the first one is taken that needs no backslashes, apart
from the letters for tabulators; if there is none, the string is basic, and long when it has several
lines.
-/

namespace ConfigSchema.Toml

/-- The forms of a string. -/
inductive StringForm
  | basic
  | literal
  | longBasic
  | longLiteral
  deriving DecidableEq

/-- The longest run of a character in a text, when `run` of them stand before it. -/
def longestRun (c : Char) (run : Nat) : List Char → Nat
  | [] => run
  | d :: ds => if d = c then longestRun c (run + 1) ds else max run (longestRun c 0 ds)

/-- The characters that no form shows as they are. -/
def isControl (c : Char) : Bool := c ≠ '\n' && !isText c

namespace StringForm

/-- The form in which a text is written. -/
def ofText (cs : List Char) : StringForm :=
  let lines := cs.any (· == '\n')
  let shown := !cs.any isControl
  let plain := shown && !cs.any (· == '\\')
  let doubles := longestRun '"' 0 cs
  let singles := longestRun '\'' 0 cs
  if plain && doubles == 0 && !lines then basic
  else if shown && singles == 0 && !lines then literal
  else if plain && doubles ≤ 2 then longBasic
  else if shown && singles ≤ 2 then longLiteral
  else if lines then longBasic
  else basic

/-- The quotes on either side. -/
def quotes : StringForm → List Char
  | basic => ['"']
  | literal => ['\'']
  | longBasic => ['"', '"', '"']
  | longLiteral => ['\'', '\'', '\'']

def isLong (f : StringForm) : Bool := f = longBasic || f = longLiteral

end StringForm

/-- A digit of base sixteen in upper case. -/
def hexDigit (n : Nat) : Char := (Nat.digitChar n).toUpper

/-- What stands for a character other than a quote in a basic string. -/
def escape (c : Char) : List Char :=
  if c = '\\' then ['\\', '\\']
  else if c = '\x08' then ['\\', 'b']
  else if c = '\t' then ['\\', 't']
  else if c = '\n' then ['\\', 'n']
  else if c = '\x0c' then ['\\', 'f']
  else if c = '\r' then ['\\', 'r']
  else if isText c then [c]
  else ['\\', 'u', '0', '0', hexDigit (c.toNat / 16), hexDigit (c.toNat % 16)]

/-- The inside of a basic string after `run` double quotes. A long one keeps its lines, and its
double quotes up to two in a row. -/
def escaped (long : Bool) (run : Nat) : List Char → List Char
  | [] => []
  | c :: cs =>
    if c = '"' then
      if long && run < 2 then '"' :: escaped long (run + 1) cs
      else '\\' :: '"' :: escaped long 0 cs
    else if long && c = '\n' then '\n' :: escaped long 0 cs
    else escape c ++ escaped long 0 cs

/-- A text as a string. A long string of several lines begins on a line of its own. -/
def quote (s : String) : List Char :=
  let cs := s.toList
  let form := StringForm.ofText cs
  let opening := if form.isLong && cs.any (· == '\n') then ['\n'] else []
  let inside := if form = .basic || form = .longBasic then escaped form.isLong 0 cs else cs
  form.quotes ++ opening ++ inside ++ form.quotes

end ConfigSchema.Toml
