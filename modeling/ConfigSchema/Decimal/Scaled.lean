import ConfigSchema.Decimal.Double

/-!
Decimal numerals that are read by way of a word. As many leading digits are kept as a word of 64
bits holds; the double nearest to them is then multiplied or divided by a power of ten. Each of
these steps is rounded, so the result may be a neighbour of the double nearest to the numeral.
-/

namespace ConfigSchema

namespace Numeral

/-- The number that digits amount to after `n`, as far as a word holds it, and the digits that are
left. -/
def takeWord (n : Nat) : List Char → Nat × List Char
  | [] => (n, [])
  | c :: cs =>
    let m := 10 * n + (c.toNat - '0'.toNat)
    if m < 18446744073709551616 then takeWord m cs else (n, c :: cs)

end Numeral

namespace Double

/-- The double nearest to `10 ^ k`; absent from `10 ^ 309` on. -/
def powerOfTen (k : Nat) : Option Double := ofRatio false (Nat.pow 10 k) 1

/-- A double divided by `10 ^ 308` as many times as given. Zero stays as it is. -/
def sink (x : Double) : Nat → Option Double
  | 0 => some x
  | n + 1 =>
    if x.isZero then some x
    else (powerOfTen 308).bind fun p => (x.div p).bind fun y => y.sink n

/-- A double times `10 ^ exponent`, with at most 308 places in one step; absent when it
overflows. -/
def scale (x : Double) (exponent : Int) : Option Double :=
  let k := exponent.natAbs
  if x.isZero then some x
  else if 0 ≤ exponent then
    if k ≤ 308 then (powerOfTen k).bind x.mul else none
  else
    let n := (k - 1) / 308
    (x.sink n).bind fun y => (powerOfTen (k - 308 * n)).bind y.div

/-- The coefficient, which a word holds, as a double times `10 ^ exponent`. -/
def ofWordDecimal (negative : Bool) (coefficient : Nat) (exponent : Int) : Option Double :=
  (ofRatio negative coefficient 1).bind fun x => x.scale exponent

end Double

end ConfigSchema
