import ConfigSchema.Decimal.Numeral
import ConfigSchema.Settings.Value
import ConfigSchema.Text.Split

/-!
Truth values and numbers of TOML. Digits may be grouped by underscores.
-/

namespace ConfigSchema.Toml

open Numeral

/-- The digits without the underscores, each of which stands between two digits. -/
def ungroup? (cs : List Char) : Option (List Char) :=
  let groups := Text.splitAt '_' cs
  if groups.all fun w => !w.isEmpty && w.all Char.isAlphanum then some groups.flatten else none

/-- A number in a base other than ten. -/
def ofBase? (base : Nat) (cs : List Char) : Option Nat := (ungroup? cs).bind (ofDigits? base)

/-- Decimal digits, the first of which is zero only when it stands alone. -/
def wholePart? (cs : List Char) : Option (List Char) :=
  (ungroup? cs).bind fun ds =>
    if ds.all Char.isDigit && (ds.head? != some '0' || ds.length == 1) then some ds else none

/-- An integer, in base ten with an optional sign or in another base. -/
def integer? : List Char → Option Int
  | '0' :: 'x' :: cs => (ofBase? 16 cs).bind (signedWord? false)
  | '0' :: 'o' :: cs => (ofBase? 8 cs).bind (signedWord? false)
  | '0' :: 'b' :: cs => (ofBase? 2 cs).bind (signedWord? false)
  | cs => do
    let (negative, cs) := takeSign cs
    let ds ← wholePart? cs
    signedWord? negative (Nat.ofDigitChars 10 ds 0)

/-- Digits and underscores at the front of a text, and the rest. -/
def takeGroups (cs : List Char) : List Char × List Char :=
  (cs.takeWhile fun c => c.isDigit || c = '_', cs.dropWhile fun c => c.isDigit || c = '_')

/-- The digits of a fraction and the rest; without a point there are none. -/
def fraction? : List Char → Option (List Char × List Char)
  | '.' :: cs => (ungroup? (takeGroups cs).1).map fun ds => (ds, (takeGroups cs).2)
  | cs => some ([], cs)

/-- The exponent to which all of a text amounts. -/
def exponent? : List Char → Option Int
  | [] => some 0
  | c :: cs =>
    if c = 'e' ∨ c = 'E' then do
      let (negative, cs) := takeSign cs
      let ds ← ungroup? cs
      if ds.all Char.isDigit then
        let n : Int := Nat.ofDigitChars 10 ds 0
        some (if negative then -n else n)
      else none
    else none

/-- A floating-point number: an infinity, NaN, or a numeral with a fraction or an exponent. A
positive numeral may not overflow, but a negative one may. -/
def double? (cs : List Char) : Option ExtendedDouble := do
  let (negative, cs) := takeSign cs
  if cs = "inf".toList then some (.infinite negative)
  else if cs = "nan".toList then some .nan
  else
    let (whole, rest) := takeGroups cs
    let whole ← wholePart? whole
    let (fraction, tail) ← fraction? rest
    let exponent ← exponent? tail
    let x := ExtendedDouble.ofDecimal negative (Nat.ofDigitChars 10 (whole ++ fraction) 0)
      (exponent - fraction.length)
    if rest = [] ∨ x = .infinite false then none else some x

/-- The characters of truth values and numbers. -/
def isScalarChar (c : Char) : Bool := c.isAlphanum || c = '_' || c = '+' || c = '-' || c = '.'

def scalar? (cs : List Char) : Option SettingValue :=
  if cs = "true".toList then some (.bool true)
  else if cs = "false".toList then some (.bool false)
  else ((integer? cs).map .integer).or ((double? cs).map .double)

end ConfigSchema.Toml
