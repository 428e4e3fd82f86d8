import ConfigSchema.Decimal.Layout
import ConfigSchema.SortedMap.Lemmas

/-!
JSON values. An object is a map, so the order of its fields and repeated names leave no trace.
Numbers are either integers of a machine word or doubles, and the two never coincide.
-/

namespace ConfigSchema

/-- An integer that fits a signed or an unsigned word of 64 bits. -/
structure WordInt where
  value : Int
  inRange : -9223372036854775808 ≤ value ∧ value < 18446744073709551616
  deriving DecidableEq

inductive JsonNumber
  | integer (n : WordInt)
  | double (x : Double)
  deriving DecidableEq

inductive Json
  | null
  | bool (b : Bool)
  | number (n : JsonNumber)
  | string (s : String)
  | array (items : List Json)
  | object (fields : Entries String Json none)

/-- A word as an integer. -/
def WordInt.ofWord (n : UInt64) : WordInt :=
  ⟨n.toNat, by have := n.toNat_lt; omega⟩

/-- The decimal digits of an integer, with a sign if it is negative. -/
def decimalInt (n : Int) : List Char :=
  if n < 0 then '-' :: Nat.toDigits 10 n.natAbs else Nat.toDigits 10 n.natAbs

/-- Integers are written by their digits. Doubles have a point or an exponent; the notation is
positional from `0.00001` up to below `1e+16`. -/
def JsonNumber.text : JsonNumber → List Char
  | integer n => decimalInt n.value
  | double x =>
    let d := Digits.shortest x
    let body := if -5 ≤ d.exponent ∧ d.exponent ≤ 15 then d.positional else d.scientific
    if x.negative then '-' :: body else body

namespace Json

instance : Inhabited Json := ⟨null⟩

/-! The principle of induction, with one hypothesis for all items or fields. -/

section Induction

variable {P : Json → Prop} (null : P null) (bool : ∀ b, P (bool b)) (number : ∀ n, P (number n))
  (string : ∀ s, P (string s)) (array : ∀ js, (∀ j ∈ js, P j) → P (array js))
  (object : ∀ fs, (∀ k j, fs.get? k = some j → P j) → P (object fs))

include null bool number string array object

@[elab_as_elim] theorem induct (j : Json) : P j := by
  refine Json.rec (motive_1 := P) (motive_2 := fun js => ∀ j ∈ js, P j)
    (motive_3 := fun _ fs => ∀ k j, fs.get? k = some j → P j)
    null bool number string array object ?_ ?_ ?_ ?_ j
  · intro j hj
    cases hj
  · intro i js hi hjs j hj
    rcases List.mem_cons.1 hj with rfl | hj
    · exact hi
    · exact hjs j hj
  · intro _ k j h
    simp at h
  · intro _ k hk i fs hi hfs l j h
    exact Entries.forall_get?_cons.2 ⟨hi, hfs⟩ l j h

end Induction

def ofWord (n : UInt64) : Json := number (.integer (.ofWord n))

def string? : Json → Option String
  | string s => some s
  | _ => none

def bool? : Json → Option Bool
  | bool b => some b
  | _ => none

/-- The word of an integer that is not negative. -/
def word? : Json → Option UInt64
  | number (.integer n) => if 0 ≤ n.value then some (UInt64.ofNat n.value.toNat) else none
  | _ => none

def items? : Json → Option (List Json)
  | array items => some items
  | _ => none

def fields? : Json → Option (SortedMap String Json)
  | object fields => some fields
  | _ => none

/-- A list of which every item can be read. -/
def listOf? {α : Type} (read : Json → Option α) (j : Json) : Option (List α) :=
  j.items?.bind (·.mapM read)

/-- A map of which every value can be read. -/
def mapOf? {α : Type} (read : Json → Option α) (j : Json) : Option (SortedMap String α) :=
  j.fields?.bind (·.mapM? read)

/-- A value or null. -/
def nullable? {α : Type} (read : Json → Option α) : Json → Option (Option α)
  | null => some none
  | j => (read j).map some

end Json

namespace Entries

variable {lo : Option String}

/-- A field that has to be there. -/
def required? {α : Type} (fields : Entries String Json lo) (name : String)
    (read : Json → Option α) : Option α :=
  (fields.get? name).bind read

/-- A field that may be left out. -/
def optional? {α : Type} (fields : Entries String Json lo) (name : String) (default : α)
    (read : Json → Option α) : Option α :=
  match fields.get? name with
  | none => some default
  | some j => read j

/-- A field that may be left out or null. -/
def nullable? {α : Type} (fields : Entries String Json lo) (name : String)
    (read : Json → Option α) : Option (Option α) :=
  fields.optional? name none (Json.nullable? read)

end Entries

end ConfigSchema
