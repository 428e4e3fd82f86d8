import ConfigSchema.Settings.Value
import ConfigSchema.Text.Blank

/-!
Reading values that are nested in brackets. The styles of brackets, words and comments are
parameters, and commas stand between the items, one of them possibly behind the last item.
-/

namespace ConfigSchema

/-- What stands in a pair of brackets. -/
inductive BracketContent
  /-- Names and values with colons between them. -/
  | fields (close : Char) (name : List Char → Option (String × List Char))
  /-- Values, out of which one value is made. -/
  | items (close : Char) (whole : List SettingValue → SettingValue)

/-- A style of writing nested values. All readers take what they recognise from the front of a text
and return the rest. -/
structure NestedStyle where
  /-- The rest after white space and comments. -/
  skip : List Char → Option (List Char)
  /-- An opening bracket. -/
  opening : List Char → Option (BracketContent × List Char)
  /-- A value without brackets. -/
  atom : List Char → Option (SettingValue × List Char)

namespace NestedStyle

mutual

def value (s : NestedStyle) : Nat → List Char → Option (SettingValue × List Char)
  | 0, _ => none
  | fuel + 1, cs => do
    let cs ← s.skip cs
    match s.opening cs with
    | none => s.atom cs
    | some (.fields close name, cs) =>
      let (pairs, cs) ← s.fields close name fuel (← s.skip cs)
      return (.table (.ofList pairs), cs)
    | some (.items close whole, cs) =>
      let (vs, cs) ← s.items close fuel (← s.skip cs)
      return (whole vs, cs)

/-- The items up to the closing bracket. -/
def items (s : NestedStyle) (close : Char) : Nat → List Char →
    Option (List SettingValue × List Char)
  | 0, _ => none
  | fuel + 1, cs =>
    if cs.head? = some close then some ([], cs.drop 1)
    else do
      let (v, cs) ← s.value fuel cs
      match ← s.skip cs with
      | ',' :: cs =>
        let (vs, cs) ← s.items close fuel (← s.skip cs)
        return (v :: vs, cs)
      | cs => if cs.head? = some close then some ([v], cs.drop 1) else none

/-- The names and values up to the closing bracket. -/
def fields (s : NestedStyle) (close : Char) (name : List Char → Option (String × List Char)) :
    Nat → List Char → Option (List (String × SettingValue) × List Char)
  | 0, _ => none
  | fuel + 1, cs =>
    if cs.head? = some close then some ([], cs.drop 1)
    else do
      let (w, cs) ← name cs
      match ← s.skip cs with
      | ':' :: cs =>
        let (v, cs) ← s.value fuel cs
        match ← s.skip cs with
        | ',' :: cs =>
          let (pairs, cs) ← s.fields close name fuel (← s.skip cs)
          return ((w, v) :: pairs, cs)
        | cs => if cs.head? = some close then some ([(w, v)], cs.drop 1) else none
      | _ => none

end

/-- The value to which all of a text amounts. -/
def all? (s : NestedStyle) (cs : List Char) : Option SettingValue := do
  let (v, rest) ← s.value (2 * cs.length + 1) cs
  if (← s.skip rest).isEmpty then some v else none

/-- Where a reader stands between values. -/
inductive Gap
  | code
  | lineComment
  | longComment

/-- The rest after white space, comments behind two slashes, and comments between a slash with a
star and a star with a slash. -/
def skipComments (isLineEnd : Char → Bool) : Gap → List Char → Option (List Char)
  | .code, '/' :: '/' :: cs => skipComments isLineEnd .lineComment cs
  | .code, '/' :: '*' :: cs => skipComments isLineEnd .longComment cs
  | .code, c :: cs =>
    if Text.isBlank c || c = '\uFEFF' then skipComments isLineEnd .code cs else some (c :: cs)
  | .lineComment, c :: cs =>
    skipComments isLineEnd (if isLineEnd c then .code else .lineComment) cs
  | .longComment, '*' :: '/' :: cs => skipComments isLineEnd .code cs
  | .longComment, _ :: cs => skipComments isLineEnd .longComment cs
  | .longComment, [] => none
  | _, [] => some []

end NestedStyle

/-- The table with the fields of a list. -/
def SettingValue.fields? : SettingValue → Option (SortedMap String SettingValue)
  | table fields => some fields
  | _ => none

end ConfigSchema
