import ConfigSchema.Json.Document
import ConfigSchema.Text.Split

/-!
Reference paths such as `data.aws_ami.ubuntu`: lists of segments, written with points between them.
Reading drops empty segments, so exactly the paths whose segments are neither empty nor hold a point
read back from their text.
-/

namespace ConfigSchema

structure RefPath where
  segments : List String
  deriving DecidableEq

namespace RefPath

/-- Lexicographic order of the segments. -/
instance : Ord RefPath := ⟨fun p q => compare p.segments q.segments⟩

instance : Std.TransOrd RefPath where
  eq_swap {p q} := Std.OrientedOrd.eq_swap (α := List String) (a := p.segments) (b := q.segments)
  isLE_trans {p q r} h h' :=
    Std.TransOrd.isLE_trans (α := List String) (a := p.segments) (b := q.segments)
      (c := r.segments) h h'

instance : Std.LawfulEqOrd RefPath where
  compare_self {p} := Std.ReflOrd.compare_self (α := List String) (a := p.segments)
  eq_of_compare {p q} h := by
    obtain ⟨ps⟩ := p
    obtain ⟨qs⟩ := q
    exact congrArg mk (Std.LawfulEqOrd.eq_of_compare (α := List String) h)

/-- The segments of a dotted text. -/
def parse (text : String) : RefPath :=
  ⟨((Text.splitAt '.' text.toList).filter fun w => !w.isEmpty).map String.ofList⟩

def text (p : RefPath) : String :=
  String.ofList (Text.join '.' (p.segments.map String.toList))

def isEmpty (p : RefPath) : Bool := p.segments.isEmpty

/-- The path is the other one or leads to it. -/
def isPrefixOf (p q : RefPath) : Bool := p.segments.isPrefixOf q.segments

/-- A segment that can be told apart in a dotted text. -/
def isSegment (s : String) : Bool := !s.isEmpty && !s.toList.contains '.'

def document (p : RefPath) : Document := .string p.text

def ofJson? (j : Json) : Option RefPath := j.string?.map parse

end RefPath

end ConfigSchema
