/-!
Finite binary64 numbers as their three fields. Every finite double is a whole multiple of the
smallest positive one, 2⁻¹⁰⁷⁴, so magnitudes are natural numbers and all arithmetic here is exact.
-/

namespace ConfigSchema

/-- A finite double: sign, biased exponent and a fraction of 52 bits. -/
structure Double where
  negative : Bool
  exponent : Fin 2047
  fraction : Fin 4503599627370496
  deriving DecidableEq

/-- The nearest integer to a quotient; a tie goes to the even neighbour. -/
def roundHalfEven (num den : Nat) : Nat :=
  let q := num / den
  let twice := 2 * (num % den)
  if twice < den then q
  else if den < twice then q + 1
  else if q % 2 = 0 then q else q + 1

namespace Double

def zero (negative : Bool) : Double := ⟨negative, 0, 0⟩

def isZero (x : Double) : Bool := x.exponent.val = 0 && x.fraction.val = 0

/-- The 53-bit significand; subnormal numbers have no leading one. -/
def significand (x : Double) : Nat :=
  if x.exponent.val = 0 then x.fraction.val else 4503599627370496 + x.fraction.val

/-- The distance to the next double above, in units of 2⁻¹⁰⁷⁴. -/
def step (x : Double) : Nat := Nat.pow 2 (x.exponent.val - 1)

/-- The absolute value in units of 2⁻¹⁰⁷⁴. -/
def magnitude (x : Double) : Nat := x.significand * x.step

/-- The number of units in one: 2¹⁰⁷⁴. -/
def unitsInOne : Nat := Nat.pow 2 1074

/-- The double of a significand of at most 53 bits and a power of two, unless it is out of range. -/
def ofParts (negative : Bool) (significand shift : Nat) : Option Double :=
  if h : significand < 4503599627370496 then some ⟨negative, 0, ⟨significand, h⟩⟩
  else
    let carry := if significand < 9007199254740992 then 0 else 1
    if he : shift + 1 + carry < 2047 then
      some ⟨negative, ⟨shift + 1 + carry, he⟩,
        Fin.ofNat 4503599627370496 (significand / (carry + 1))⟩
    else none

/-- The double nearest to `num / den`, ties to even; absent when that overflows. -/
def ofRatio (negative : Bool) (num den : Nat) : Option Double :=
  let scaled := num * unitsInOne
  let shift := Nat.log2 (scaled / den) - 52
  ofParts negative (roundHalfEven scaled (den * Nat.pow 2 shift)) shift

/-- The product, rounded; absent when it overflows. -/
def mul (x y : Double) : Option Double :=
  ofRatio (x.negative != y.negative) (x.magnitude * y.magnitude) (unitsInOne * unitsInOne)

/-- The quotient by a double other than zero, rounded; absent when it overflows. -/
def div (x y : Double) : Option Double :=
  ofRatio (x.negative != y.negative) x.magnitude y.magnitude

/-- The number of decimal digits. -/
def digitCount (n : Nat) : Nat := (Nat.toDigits 10 n).length

/-- The double nearest to `coefficient * 10 ^ exponent`; absent when that overflows. Exponents far
out of range are settled by the number of digits. -/
def ofDecimal (negative : Bool) (coefficient : Nat) (exponent : Int) : Option Double :=
  if coefficient = 0 then some (zero negative)
  else
    let order := exponent + digitCount coefficient
    if 310 < order then none
    else if order < -330 then some (zero negative)
    else if 0 ≤ exponent then ofRatio negative (coefficient * Nat.pow 10 exponent.toNat) 1
    else ofRatio negative coefficient (Nat.pow 10 (-exponent).toNat)

end Double

end ConfigSchema
