import ConfigSchema.Decimal.Shortest

/-!
Layouts of decimal digits as text.
-/

namespace ConfigSchema.Digits

/-- The digits before and after the decimal point. -/
def positions (d : Digits) : List Char × List Char :=
  if d.exponent < 0 then
    (['0'], List.replicate (-d.exponent - 1).toNat '0' ++ d.digits)
  else
    let whole := (d.exponent + 1).toNat
    (d.digits.take whole ++ List.replicate (whole - d.digits.length) '0', d.digits.drop whole)

/-- Positional notation with at least one digit after the point. -/
def positional (d : Digits) : List Char :=
  let (whole, fraction) := d.positions
  whole ++ '.' :: (if fraction.isEmpty then ['0'] else fraction)

/-- Positional notation without a point when there is nothing after it. -/
def plain (d : Digits) : List Char :=
  let (whole, fraction) := d.positions
  if fraction.isEmpty then whole else whole ++ '.' :: fraction

/-- Scientific notation with a sign in the exponent. -/
def scientific (d : Digits) : List Char :=
  let mantissa := match d.digits with
    | [] => []
    | [c] => [c]
    | c :: cs => c :: '.' :: cs
  let sign := if d.exponent < 0 then '-' else '+'
  mantissa ++ 'e' :: sign :: Nat.toDigits 10 d.exponent.natAbs

end ConfigSchema.Digits
