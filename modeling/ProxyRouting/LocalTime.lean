import ProxyRouting.Text.Blank
import ProxyRouting.Text.Digits

/-!
Local times to the minute in the proleptic Gregorian calendar: their day of the week, their text, and
reading them from `YYYY-MM-DD HH:MM`.
-/
-- Sums begin at the zero of the language itself, whatever else is imported.
attribute [local instance (10000)] Zero.ofOfNat0

namespace ProxyRouting

/-- A minute of a day of a year. -/
structure LocalTime where
  year : Int
  month : Nat
  day : Nat
  hour : Fin 24
  minute : Fin 60
  deriving DecidableEq, Repr

namespace LocalTime

/-- The time with the given numbers. -/
def ofNumbers (year : Int) (month day hour minute : Nat) : LocalTime :=
  ⟨year, month, day, Fin.ofNat 24 hour, Fin.ofNat 60 minute⟩

/-- The year has a 29th of February. -/
def isLeap (year : Int) : Bool := year % 4 == 0 && (year % 100 != 0 || year % 400 == 0)

/-- The number of days of a month. -/
def daysInMonth (year : Int) (month : Nat) : Nat :=
  if month = 2 then (if isLeap year then 29 else 28)
  else if month = 4 ∨ month = 6 ∨ month = 9 ∨ month = 11 then 30
  else 31

/-- The days before a year, counted from the first of January of the year 1. -/
def daysBeforeYear (year : Int) : Int :=
  let y := year - 1
  365 * y + y / 4 - y / 100 + y / 400

/-- The days of a year before one of its months. -/
def daysBeforeMonth (year : Int) (month : Nat) : Nat :=
  ((List.range (month - 1)).map fun m => daysInMonth year (m + 1)).sum

/-- The day of the week, Sunday being 0. The first of January of the year 1 is a Monday. -/
def weekday (t : LocalTime) : Fin 7 :=
  Fin.ofNat 7 ((daysBeforeYear t.year + daysBeforeMonth t.year t.month + t.day) % 7).toNat

/-- A year with four digits, and with a sign when it needs more or is negative. -/
def yearText (year : Int) : Text :=
  let digits := Text.padZeros 4 (Text.ofNat year.natAbs)
  if year < 0 then '-' :: digits else if year < 10000 then digits else '+' :: digits

/-- The date and the time of day to the minute. -/
def toText (t : LocalTime) : Text :=
  let two (n : Nat) : Text := Text.padZeros 2 (Text.ofNat n)
  yearText t.year ++ '-' :: two t.month ++ '-' :: two t.day ++ ' ' :: two t.hour ++ ':' :: two t.minute

/-- The date and the time of day to the second. -/
def toLongText (t : LocalTime) : Text := toText t ++ ":00".toList

/-- Why a text is no local time. -/
inductive Fault
  | outOfRange
  | tooShort
  | tooLong
  | invalid
  deriving DecidableEq, Repr

/-- The wording of a fault. -/
def Fault.message : Fault → Text
  | .outOfRange => "input is out of range".toList
  | .tooShort => "premature end of input".toList
  | .tooLong => "trailing input".toList
  | .invalid => "input contains invalid characters".toList

/-- Reads a number of at least one and, if `most` is given, at most so many digits. -/
def readNumber (most : Option Nat) (t : Text) : Except Fault (Nat × Text) :=
  match t with
  | [] => .error .tooShort
  | c :: _ =>
    if c.isDigit then
      let digits := t.takeWhile Char.isDigit
      let digits := (most.map digits.take).getD digits
      if Text.digitsValue digits < 2 ^ 63 then .ok (Text.digitsValue digits, t.drop digits.length)
      else .error .outOfRange
    else .error .invalid

/-- Reads a number behind white space that must lie in the given range. -/
def readField (low high : Nat) (t : Text) : Except Fault (Nat × Text) :=
  match readNumber (some 2) (Text.trimStart t) with
  | .error fault => .error fault
  | .ok (n, rest) => if low ≤ n ∧ n ≤ high then .ok (n, rest) else .error .outOfRange

/-- Reads a year behind white space; only with a sign may it have more than four digits. -/
def readYear (t : Text) : Except Fault (Int × Text) :=
  let bounded : Except Fault (Int × Text) → Except Fault (Int × Text)
    | .ok (y, rest) => if -(2 ^ 31) ≤ y ∧ y < 2 ^ 31 then .ok (y, rest) else .error .outOfRange
    | .error fault => .error fault
  match Text.trimStart t with
  | '-' :: t => bounded ((readNumber none t).map fun (n, rest) => (-(n : Int), rest))
  | '+' :: t => bounded ((readNumber none t).map fun (n, rest) => ((n : Int), rest))
  | t => bounded ((readNumber (some 4) t).map fun (n, rest) => ((n : Int), rest))

/-- Reads a separator. -/
def readSeparator (c : Char) : Text → Except Fault Text
  | [] => .error .tooShort
  | d :: t => if d = c then .ok t else .error .invalid

/-- Reads a whole text; white space may precede each number and separate the date from the time. -/
def read (t : Text) : Except Fault LocalTime := do
  let (year, t) ← readYear t
  let t ← readSeparator '-' t
  let (month, t) ← readField 1 12 t
  let t ← readSeparator '-' t
  let (day, t) ← readField 1 31 t
  let (hour, t) ← readField 0 23 t
  let t ← readSeparator ':' t
  let (minute, t) ← readField 0 59 t
  if t ≠ [] then .error .tooLong
  else if day ≤ daysInMonth year month ∧ -262143 ≤ year ∧ year ≤ 262142 then
    .ok (ofNumbers year month day hour minute)
  else .error .outOfRange

end LocalTime
end ProxyRouting
