import ConfigSchema.Decimal.Layout

/-!
Numerals: the pieces that several notations have in common, and the numerals of floating-point
numbers with infinities and NaN.
-/

namespace ConfigSchema

namespace Numeral

/-- The value of a hexadecimal digit. -/
def hexValue (c : Char) : Option Nat :=
  if '0' ≤ c ∧ c ≤ '9' then some (c.toNat - '0'.toNat)
  else if 'a' ≤ c ∧ c ≤ 'f' then some (c.toNat - 'a'.toNat + 10)
  else if 'A' ≤ c ∧ c ≤ 'F' then some (c.toNat - 'A'.toNat + 10)
  else none

/-- The number of digits of a base up to sixteen. -/
def ofDigits? (base : Nat) (cs : List Char) : Option Nat :=
  cs.foldlM (fun n c => do
    let d ← hexValue c
    if d < base then some (n * base + d) else none) 0

/-- The character with the code point of hexadecimal digits. -/
def codePoint? (cs : List Char) : Option Char :=
  (ofDigits? 16 cs).bind fun n => if n.isValidChar then some (Char.ofNat n) else none

/-- The digits at the front of a text, and the rest. -/
def takeDigits (cs : List Char) : List Char × List Char :=
  (cs.takeWhile Char.isDigit, cs.dropWhile Char.isDigit)

/-- Whether there is a minus sign; a plus sign is passed over. -/
def takeSign : List Char → Bool × List Char
  | '-' :: cs => (true, cs)
  | '+' :: cs => (false, cs)
  | cs => (false, cs)

/-- The integer of a sign and a magnitude, if it fits a signed word of 64 bits. -/
def signedWord? (negative : Bool) (magnitude : Nat) : Option Int :=
  let n : Int := if negative then -magnitude else magnitude
  if -9223372036854775808 ≤ n ∧ n < 9223372036854775808 then some n else none

/-- The exponent at the front of a text, with an optional sign and at least one digit, or
nothing. -/
def exponentPart : List Char → Option (Option Int × List Char)
  | [] => some (none, [])
  | c :: cs =>
    if c = 'e' ∨ c = 'E' then
      let (negative, cs) := takeSign cs
      match takeDigits cs with
      | ([], _) => none
      | (ds, rest) =>
        let n : Int := Nat.ofDigitChars 10 ds 0
        some (some (if negative then -n else n), rest)
    else some (none, c :: cs)

end Numeral

/-- A floating-point number. -/
inductive ExtendedDouble
  | finite (x : Double)
  | infinite (negative : Bool)
  | nan
  deriving DecidableEq

namespace ExtendedDouble

/-- The number `coefficient * 10 ^ exponent`, which may overflow. -/
def ofDecimal (negative : Bool) (coefficient : Nat) (exponent : Int) : ExtendedDouble :=
  match Double.ofDecimal negative coefficient exponent with
  | some x => finite x
  | none => infinite negative

def isZero : ExtendedDouble → Bool
  | finite x => x.isZero
  | _ => false

/-- Positional notation with the fewest digits, without a point at the end and never with an
exponent. -/
def text : ExtendedDouble → List Char
  | finite x => (if x.negative then ['-'] else []) ++ (Digits.shortest x).plain
  | infinite negative => if negative then "-inf".toList else "inf".toList
  | nan => "NaN".toList

/-- The number of a numeral: digits with an optional point anywhere among them and an optional
exponent, or the name of an infinity or NaN in letters of any case. -/
def ofText? (cs : List Char) : Option ExtendedDouble :=
  let (negative, body) := Numeral.takeSign cs
  let name := String.ofList (body.map Char.toLower)
  if name = "inf" ∨ name = "infinity" then some (infinite negative)
  else if name = "nan" then some nan
  else
    let (whole, rest) := Numeral.takeDigits body
    let (fraction, rest) := match rest with
      | '.' :: cs => Numeral.takeDigits cs
      | cs => ([], cs)
    if whole.isEmpty && fraction.isEmpty then none
    else
      match Numeral.exponentPart rest with
      | some (exponent, []) =>
        some (ofDecimal negative (Nat.ofDigitChars 10 (whole ++ fraction) 0)
          (exponent.getD 0 - fraction.length))
      | _ => none

end ExtendedDouble

end ConfigSchema
