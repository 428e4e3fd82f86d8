import ConfigSchema.Text.Blank
import ConfigSchema.Text.CharLiteral
import ConfigSchema.Version.Basic

/-!
Reading versions. `Version.parse` accepts the canonical texts and says what is wrong with any other;
`Version.ofLanguageText` also admits white space around the text, a leading `v` and a missing patch
number.
-/

namespace ConfigSchema

/-- The parts of a version in the order in which they are read. -/
inductive VersionPart
  | major
  | minor
  | patch
  | pre
  | build
  deriving DecidableEq

/-- Why a text is no version. -/
inductive VersionError
  | empty
  | unexpectedEnd (part : VersionPart)
  | unexpectedChar (part : VersionPart) (c : Char)
  | unexpectedCharAfter (part : VersionPart) (c : Char)
  | leadingZero (part : VersionPart)
  | overflow (part : VersionPart)
  | emptySegment (part : VersionPart)
  deriving DecidableEq

def VersionPart.name : VersionPart → String
  | major => "major version number"
  | minor => "minor version number"
  | patch => "patch version number"
  | pre => "pre-release identifier"
  | build => "build metadata"

def VersionError.message : VersionError → String
  | empty => "empty string, expected a semver version"
  | unexpectedEnd part => "unexpected end of input while parsing " ++ part.name
  | unexpectedChar part c =>
    "unexpected character " ++ Text.charLiteral c ++ " while parsing " ++ part.name
  | unexpectedCharAfter part c =>
    "unexpected character " ++ Text.charLiteral c ++ " after " ++ part.name
  | leadingZero part => "invalid leading zero in " ++ part.name
  | overflow part => "value of " ++ part.name ++ " exceeds u64::MAX"
  | emptySegment part => "empty identifier segment in " ++ part.name

namespace Version

/-- The number at the front of a text. -/
def readNumber (part : VersionPart) (cs : List Char) :
    Except VersionError (UInt64 × List Char) :=
  match cs.takeWhile Char.isDigit, cs with
  | [], [] => .error (.unexpectedEnd part)
  | [], c :: _ => .error (.unexpectedChar part c)
  | '0' :: _ :: _, _ => .error (.leadingZero part)
  | digits, _ =>
    let n := Nat.ofDigitChars 10 digits 0
    if n < 18446744073709551616 then .ok (UInt64.ofNat n, cs.dropWhile Char.isDigit)
    else .error (.overflow part)

/-- The point after a number. -/
def readPoint (part : VersionPart) : List Char → Except VersionError (List Char)
  | [] => .error (.unexpectedEnd part)
  | c :: cs => if c = '.' then .ok cs else .error (.unexpectedCharAfter part c)

def readPreIdentifier (cs : List Char) : Except VersionError PreIdentifier :=
  if h : isIdentifier cs = true then
    if h' : hasLeadingZero cs = false then .ok ⟨cs, h, h'⟩ else .error (.leadingZero .pre)
  else .error (.emptySegment .pre)

def readBuildIdentifier (cs : List Char) : Except VersionError BuildIdentifier :=
  if h : isIdentifier cs = true then .ok ⟨cs, h⟩ else .error (.emptySegment .build)

def isSuffixChar (c : Char) : Bool := isIdentifierChar c || c = '.'

/-- The identifiers behind a mark, if the mark is there; the flag tells whether it is. -/
def readIdentifiers {α : Type} (mark : Char) (read : List Char → Except VersionError α) :
    List Char → Except VersionError (Option (List α) × List Char)
  | [] => .ok (none, [])
  | c :: cs =>
    if c = mark then
      match (Text.splitAt '.' (cs.takeWhile isSuffixChar)).mapM read with
      | .ok ids => .ok (some ids, cs.dropWhile isSuffixChar)
      | .error e => .error e
    else .ok (none, c :: cs)

/-- The version that a text denotes. -/
def parseChars (cs : List Char) : Except VersionError Version := do
  if cs.isEmpty then throw .empty
  let (major, cs) ← readNumber .major cs
  let cs ← readPoint .major cs
  let (minor, cs) ← readNumber .minor cs
  let cs ← readPoint .minor cs
  let (patch, cs) ← readNumber .patch cs
  let (pre, cs) ← readIdentifiers '-' readPreIdentifier cs
  let (build, cs) ← readIdentifiers '+' readBuildIdentifier cs
  match cs with
  | [] => return ⟨major, minor, patch, pre.getD [], build.getD []⟩
  | c :: _ =>
    let last := if build.isSome then .build else if pre.isSome then .pre else .patch
    throw (.unexpectedCharAfter last c)

def parse (text : String) : Except VersionError Version := parseChars text.toList

/-- A version as it is named for the language: without white space around it and without one
leading `v`; with one point in the numbers, the patch number is zero. Nothing is left of a text
that names no version at all. -/
def languageChars (text : String) : Option (List Char) :=
  let cs := match Text.trim text.toList with
    | 'v' :: cs => cs
    | cs => cs
  if cs.isEmpty then none
  else
    let inNumbers := fun c => c ≠ '-' && c ≠ '+'
    let numbers := cs.takeWhile inNumbers
    if numbers.count '.' = 1 then some (numbers ++ '.' :: '0' :: cs.dropWhile inNumbers)
    else some cs

end Version

end ConfigSchema
