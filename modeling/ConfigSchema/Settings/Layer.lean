import ConfigSchema.Settings.Value
import ConfigSchema.Text.Split

/-!
Layers of settings: values by keys. A key is a path of names with points between them, and a name
may be followed by positions in brackets. Along the path, tables and lists come into being as far as
they are needed, and take the place of values of another kind.
-/

namespace ConfigSchema

/-- A step into a table or into a list. A negative position counts from the end. -/
inductive SettingStep
  | field (name : String)
  | item (position : Int)
  deriving DecidableEq

namespace SettingStep

/-- The characters of names in keys. -/
def isNameChar (c : Char) : Bool := c.isAlphanum || c = ' ' || c = '_' || c = '-'

def skipBlank (cs : List Char) : List Char := cs.dropWhile fun c => c = ' ' || c = '\t'

/-- The position in a bracket that has been opened and ends the text. -/
def position? (cs : List Char) : Option Int :=
  let (negative, cs) := match skipBlank cs with
    | '-' :: cs => (true, cs)
    | cs => (false, cs)
  let (digits, rest) := Numeral.takeDigits cs
  if digits ≠ [] ∧ skipBlank rest = [']'] then
    Numeral.signedWord? negative (Nat.ofDigitChars 10 digits 0)
  else none

/-- The steps of a name and the positions behind it. -/
def ofPart? (cs : List Char) : Option (List SettingStep) :=
  let name := cs.takeWhile isNameChar
  if name = [] then none
  else
    match Text.splitAt '[' (cs.dropWhile isNameChar) with
    | [] :: brackets =>
      (brackets.mapM position?).map fun positions =>
        field (String.ofList name) :: positions.map item
    | _ => none

/-- The steps of a key. A key that is not made of names and positions is one name. -/
def ofKey (key : List Char) : List SettingStep :=
  match (Text.splitAt '.' key).mapM ofPart? with
  | some steps => steps.flatten
  | none => [field (String.ofList key)]

/-- The place of a position in a list of some length; before the first item there is none. -/
def place? (position : Int) (length : Nat) : Option Nat :=
  if 0 ≤ position then some position.toNat
  else if position.natAbs ≤ length then some (length - position.natAbs)
  else none

end SettingStep

namespace SettingValue

/-- A list with an item at a place. The places before it that are not filled hold blanks. -/
def setItem (items : List SettingValue) (place : Nat) (v : SettingValue) : List SettingValue :=
  (items ++ List.replicate (place + 1 - items.length) blank).set place v

/-- What takes the place of a value when a layer puts `v` behind some steps. At the end, fields are
layered and items are replaced. -/
def put (v : SettingValue) : List SettingStep → Option SettingValue → SettingValue
  | [], old => layered old v
  | .field name :: rest, old =>
    let fields := (old.getD blank).fields
    let name := lowerName name
    table (fields.insert name (put v rest (fields.get? name)))
  | .item position :: rest, old =>
    let items := (old.getD blank).items
    match SettingStep.place? position items.length with
    | some place =>
      array (setItem items place (if rest.isEmpty then v else put v rest items[place]?))
    | none => array items

end SettingValue

/-- The settings of a file or of the environment: values by the steps to them. -/
abbrev SettingLayer := List (List SettingStep × SettingValue)

namespace SettingLayer

/-- The fields after a layer. -/
def applyTo (layer : SettingLayer) (base : SortedMap String SettingValue) :
    SortedMap String SettingValue :=
  layer.foldl (fun m p => (SettingValue.put p.2 p.1 (some (.table m))).fields) base

/-- The fields after all layers, the first of which is the lowest. -/
def merge (layers : List SettingLayer) : SortedMap String SettingValue :=
  layers.foldl (fun m layer => layer.applyTo m) .nil

/-- The layer of the fields of a table. -/
def ofFields (fields : SortedMap String SettingValue) : SettingLayer :=
  fields.toList.map fun p => (SettingStep.ofKey p.1.toList, p.2)

end SettingLayer

end ConfigSchema
