import ConfigSchema.Decimal.Numeral

/-!
Days and times of TOML. They are taken as texts in one form: a `T` stands between the day and the
time, and a part of a second has at most nine digits, the last of which is not zero.
-/

namespace ConfigSchema.Toml

/-- The first `count` characters and the rest, if they are digits of a number between two bounds. -/
def digits (count low high : Nat) (cs : List Char) : Option (List Char × List Char) :=
  let ds := cs.take count
  let n := Nat.ofDigitChars 10 ds 0
  if ds.length = count ∧ ds.all Char.isDigit ∧ low ≤ n ∧ n ≤ high then some (ds, cs.drop count)
  else none

def daysOfMonth (year month : Nat) : Nat :=
  if month = 2 then
    if year % 4 = 0 ∧ (year % 100 ≠ 0 ∨ year % 400 = 0) then 29 else 28
  else if month ∈ [4, 6, 9, 11] then 30
  else 31

/-- A day, and the rest. -/
def day (cs : List Char) : Option (List Char × List Char) :=
  match digits 4 0 9999 cs with
  | some (year, '-' :: cs) =>
    match digits 2 1 12 cs with
    | some (month, '-' :: cs) =>
      let last := daysOfMonth (Nat.ofDigitChars 10 year 0) (Nat.ofDigitChars 10 month 0)
      (digits 2 1 last cs).map fun (day, cs) => (year ++ '-' :: month ++ '-' :: day, cs)
    | _ => none
  | _ => none

/-- Hours and minutes, and the rest. -/
def hoursAndMinutes (cs : List Char) : Option (List Char × List Char) :=
  match digits 2 0 23 cs with
  | some (hours, ':' :: cs) =>
    (digits 2 0 59 cs).map fun (minutes, cs) => (hours ++ ':' :: minutes, cs)
  | _ => none

/-- A part of a second with its point, if there is one, and the rest. -/
def partOfSecond : List Char → Option (List Char × List Char)
  | '.' :: cs =>
    let (ds, cs) := Numeral.takeDigits cs
    match ds, ((ds.take 9).reverse.dropWhile (· = '0')).reverse with
    | [], _ => none
    | _, [] => some ([], cs)
    | _, ds => some ('.' :: ds, cs)
  | cs => some ([], cs)

/-- A time of a day, and the rest. A minute may have a leap second. -/
def time (cs : List Char) : Option (List Char × List Char) :=
  match hoursAndMinutes cs with
  | some (start, ':' :: cs) => do
    let (seconds, cs) ← digits 2 0 60 cs
    let (part, cs) ← partOfSecond cs
    return (start ++ ':' :: seconds ++ part, cs)
  | _ => none

/-- How far a time is from universal time, if that is told, and the rest. -/
def offset : List Char → List Char × List Char
  | [] => ([], [])
  | c :: cs =>
    if c = 'Z' ∨ c = 'z' then (['Z'], cs)
    else if c = '+' ∨ c = '-' then
      match hoursAndMinutes cs with
      | some (distance, cs) => ((if distance = "00:00".toList then '+' else c) :: distance, cs)
      | none => ([], c :: cs)
    else ([], c :: cs)

/-- The time behind a day with a `T` in front of it, if there is one, and the rest. -/
def timeOfDay (cs : List Char) : List Char × List Char :=
  if cs.head?.any fun c => c = 'T' || c = 't' || c = ' ' then
    match time (cs.drop 1) with
    | some (text, rest) => ('T' :: text ++ (offset rest).1, (offset rest).2)
    | none => ([], cs)
  else ([], cs)

/-- A day, a time, or both, and the rest. -/
def dateTime (cs : List Char) : Option (List Char × List Char) :=
  match day cs with
  | some (text, rest) => some (text ++ (timeOfDay rest).1, (timeOfDay rest).2)
  | none => time cs

end ConfigSchema.Toml
