import ConfigSchema.Decimal.Double

/-!
The shortest decimal digits of a double: the fewest digits that read back as it, and of those the
nearest to it. Candidates are the two neighbours of the value on each decimal grid, and they are
compared with the ends of the interval of numbers that round to it by exact integer arithmetic.
-/

namespace ConfigSchema

/-- Significant digits `d₁d₂…dₙ` of a number `d₁.d₂…dₙ * 10 ^ exponent`. -/
structure Digits where
  digits : List Char
  exponent : Int
  deriving DecidableEq

namespace Digits

/-- The digits of `coefficient * 10 ^ exponent`, without zeros at the end. -/
def ofScaled (coefficient : Nat) (exponent : Int) : Digits :=
  let ds := Nat.toDigits 10 coefficient
  ⟨(ds.reverse.dropWhile (· = '0')).reverse, exponent + ds.length - 1⟩

/-- The exponent of the first significant digit of `num / den`. -/
def leadingExponent (num den : Nat) : Int :=
  if den ≤ num then (Double.digitCount (num / den) : Int) - 1
  else -(Double.digitCount ((den - 1) / num) : Int)

/-- The value of one step of a decimal grid as a quotient. -/
def gridStep (k : Int) : Nat × Nat :=
  if 0 ≤ k then (Nat.pow 10 k.toNat, 1) else (1, Nat.pow 10 (-k).toNat)

/-- Four times the lower and upper ends of the numbers that round to a double, in its units. -/
def roundingInterval (x : Double) : Nat × Nat :=
  let below := if x.fraction.val = 0 ∧ 1 < x.exponent.val then x.step else 2 * x.step
  (4 * x.magnitude - below, 4 * x.magnitude + 2 * x.step)

/-- The point of the grid rounds to the double; the ends of the interval go to even significands. -/
def readsBack (x : Double) (c : Nat) (k : Int) : Bool :=
  let (num, den) := gridStep k
  let point := 4 * (c * num) * Double.unitsInOne
  let (low, high) := roundingInterval x
  if x.significand % 2 = 0 then low * den ≤ point && point ≤ high * den
  else low * den < point && point < high * den

/-- The better of the value's two neighbours on the grid of `n` digits, if one reads back. -/
def onGrid (x : Double) (n : Nat) : Option Digits :=
  let k := leadingExponent x.magnitude Double.unitsInOne - n + 1
  let (num, den) := gridStep k
  let value := x.magnitude * den
  let c := value / (num * Double.unitsInOne)
  let middle := (2 * c + 1) * num * Double.unitsInOne
  let preferUpper := middle < 2 * value || (2 * value = middle && c % 2 = 1)
  match readsBack x c k, readsBack x (c + 1) k with
  | true, true => some (ofScaled (if preferUpper then c + 1 else c) k)
  | true, false => some (ofScaled c k)
  | false, true => some (ofScaled (c + 1) k)
  | false, false => none

/-- The shortest digits of the absolute value; zero has the digit `0`. A binary64 number has at
most 767 significant digits, so the search ends. -/
def shortest (x : Double) : Digits :=
  if x.isZero then ⟨['0'], 0⟩
  else ((List.range 767).findSome? fun i => onGrid x (i + 1)).getD ⟨['0'], 0⟩

end Digits

end ConfigSchema
