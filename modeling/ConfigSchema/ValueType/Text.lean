import ConfigSchema.ValueType.Basic

/-!
Types written as type expressions, such as `list(string)`. The writers put the expression in front
of what follows it.
-/

namespace ConfigSchema.ValueType

mutual

def writeOnto : ValueType → List Char → List Char
  | dynamic, rest => "any".toList ++ rest
  | string, rest => "string".toList ++ rest
  | number, rest => "number".toList ++ rest
  | bool, rest => "bool".toList ++ rest
  | list t, rest => "list(".toList ++ t.writeOnto (')' :: rest)
  | set t, rest => "set(".toList ++ t.writeOnto (')' :: rest)
  | map t, rest => "map(".toList ++ t.writeOnto (')' :: rest)
  | tuple ts, rest => "tuple([".toList ++ writeElements true ts (']' :: ')' :: rest)
  | object ts, rest => "object(".toList ++ '\x7b' :: writeFields true ts ('\x7d' :: ')' :: rest)

/-- Elements with a comma before each but the first one. -/
def writeElements (first : Bool) : List ValueType → List Char → List Char
  | [], rest => rest
  | t :: ts, rest =>
    (if first then [] else ", ".toList) ++ t.writeOnto (writeElements false ts rest)

def writeFields (first : Bool) {lo : Option String} :
    Entries String ValueType lo → List Char → List Char
  | .nil, rest => rest
  | .cons name _ t ts, rest =>
    (if first then [] else ", ".toList) ++ name.toList ++
      '=' :: t.writeOnto (writeFields false ts rest)

end

/-- The type expression of a type. -/
def text (t : ValueType) : String := String.ofList (t.writeOnto [])

end ConfigSchema.ValueType
