import ProxyRouting.Condition.Basic
import ProxyRouting.Expr.Range
import ProxyRouting.LocalTime
import ProxyRouting.Number.Decimal
import ProxyRouting.Text.Blank
import ProxyRouting.Weekdays

/-!
Conditions that a number lies in a range: the dots of the host, the day of the week, the hour. Their
text is `first~last`, read leniently: a bound is what its text starts with, and one that is missing or
out of place falls back to the least.
-/
namespace ProxyRouting

/-- The greatest value of a bound that is read. -/
def maxBound : Nat := 2 ^ 63 - 1

/-- A bound with one more digit behind it; neither step leaves the 64 bits. -/
def pushDigit (value : Int) (digit : Char) : Int :=
  Binary64.saturate (Binary64.saturate (value * 10) + (digit.toNat - '0'.toNat : Nat))

/-- The integer a text starts with, behind white space and a sign; digits beyond the greatest value
    count as that value. -/
def readBound? (t : Text) : Option Int :=
  let (negative, t) := match Text.trimStart t with
    | '-' :: t => (true, t)
    | '+' :: t => (false, t)
    | t => (false, t)
  let digits := t.takeWhile Char.isDigit
  let n := digits.foldl pushDigit 0
  if digits = [] then none else some (if negative then -n else n)

/-- The text of a range. -/
def rangeText (first last : Nat) : Text := Text.ofNat first ++ '~' :: Text.ofNat last

/-- The bounds that a text spells, the first two parts between tildes. -/
def readBounds (t : Text) : Option Int × Option Int :=
  match t.splitOn '~' with
  | first :: last :: _ => (readBound? first, readBound? last)
  | [only] => (readBound? only, none)
  | [] => (none, none)

/-- A bound for the number of dots, at least one. -/
def levelBound (bound : Option Int) : UInt32 :=
  match bound with
  | some n => if 0 < n then UInt32.ofNat (min n.toNat (2 ^ 32 - 1)) else 1
  | none => 1

/-- A bound from zero to `most`. -/
def boundWithin (most : Nat) (bound : Option Int) : UInt8 :=
  match bound with
  | some n => if 0 ≤ n ∧ n ≤ most then UInt8.ofNat n.toNat else 0
  | none => 0

namespace Condition

/-- Bounds for the number of dots from their text. -/
def hostLevelsOfText (t : Text) : Condition :=
  let (min, max) := readBounds t
  .hostLevels (levelBound min) (levelBound max)

/-- Days from their text: seven units without a tilde are a mask. -/
def weekdayOfText (t : Text) : Condition :=
  if '~' ∉ t ∧ Text.unitLength t = 7 then .weekday (some t) 0 0
  else
    let (first, last) := readBounds t
    .weekday none (boundWithin 6 first) (boundWithin 6 last)

/-- Hours from their text. -/
def timeOfText (t : Text) : Condition :=
  let (first, last) := readBounds t
  .time (boundWithin 23 first) (boundWithin 23 last)

end Condition

/-- The number of dots in the host lies in the range. -/
def levelsMatch (host : Text) (min max : UInt32) : Bool :=
  min.toNat ≤ host.count '.' && host.count '.' ≤ max.toNat

/-- The same as an expression, which counts labels, one more than the dots. -/
def levelsExpr (min max : UInt32) : Expr :=
  let labels := Expr.member ((Expr.name "host").method "split" [.string ['.']]) "length".toList
  let comment := Text.ofNat min.toNat ++ " <= hostLevels <= ".toList ++ Text.ofNat max.toNat
  Expr.between labels (min.toNat + 1) (max.toNat + 1) (some comment)

/-- A method of the current date. -/
def nowMethod (method : String) : Expr := (Expr.construct (.name "Date") []).method method []

/-- A choice of days: by a mask that is not empty, or from the first to the last. -/
structure WeekdayRule where
  mask : Option Text
  first : UInt8
  last : UInt8
  deriving DecidableEq, Repr

namespace WeekdayRule

/-- The rule of a condition, whose mask does not count when it is empty. -/
def of (mask : Option Text) (first last : UInt8) : WeekdayRule := ⟨mask.filter (· ≠ []), first, last⟩

/-- The days chosen. -/
def days (w : WeekdayRule) : Weekdays :=
  match w.mask with
  | some mask => Weekdays.ofMask mask
  | none => Weekdays.ofRange w.first.toNat w.last.toNat

/-- The choice as an expression about the current day. -/
def toExpr (w : WeekdayRule) : Expr :=
  match w.mask with
  | some mask => .binary .gt ((Expr.string mask).method "charCodeAt" [nowMethod "getDay"]) (.number 64)
  | none => Expr.between (nowMethod "getDay") w.first.toNat w.last.toNat none

end WeekdayRule

/-- The days of a condition that has some. -/
def Condition.weekdays? : Condition → Option Weekdays
  | .weekday mask first last => some (WeekdayRule.of mask first last).days
  | _ => none

/-- The hour lies in the range. -/
def hourMatch (hour : Nat) (first last : UInt8) : Bool := first.toNat ≤ hour && hour ≤ last.toNat

/-- The same as an expression about the current hour. -/
def hourExpr (first last : UInt8) : Expr :=
  Expr.between (nowMethod "getHours") first.toNat last.toNat none

end ProxyRouting
