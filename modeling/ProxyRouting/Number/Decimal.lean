import ProxyRouting.Number.Binary64
import ProxyRouting.Text.Digits

/-!
Decimal notation of doubles: reading it, rounding once, and the shortest decimal that reads back as
the same double, always written positionally.
-/
namespace ProxyRouting.Binary64

/-- The double nearest to `mantissa · 10^exponent`. Values beyond any double are decided by their
    number of digits alone. -/
def ofDecimal (negative : Bool) (mantissa : Nat) (exponent : Int) : Binary64 :=
  let digits : Int := (Text.ofNat mantissa).length + exponent
  if mantissa = 0 ∨ digits < -330 then .finite negative 0
  else if 310 < digits then .infinite negative
  else if 0 ≤ exponent then ofRatio negative (mantissa * 10 ^ exponent.toNat * one) 1
  else ofRatio negative (mantissa * one) (10 ^ (-exponent).toNat)

/-- The exponent part of a decimal, empty or `e` with an optional sign and digits. -/
def exponent? : Text → Option Int
  | [] => some 0
  | e :: t =>
    if e = 'e' ∨ e = 'E' then
      let (negative, digits) := match t with
        | '-' :: t => (true, t)
        | '+' :: t => (false, t)
        | t => (false, t)
      if digits ≠ [] ∧ digits.all Char.isDigit then
        let n : Int := Text.digitsValue digits
        some (if negative then -n else n)
      else none
    else none

/-- Reads an unsigned decimal: digits with at most one point among them, then an exponent. -/
def unsignedDecimal? (negative : Bool) (t : Text) : Option Binary64 :=
  let whole := t.takeWhile Char.isDigit
  let (fraction, rest) := match t.dropWhile Char.isDigit with
    | '.' :: t => (t.takeWhile Char.isDigit, t.dropWhile Char.isDigit)
    | t => ([], t)
  if whole = [] ∧ fraction = [] then none
  else (exponent? rest).map fun e => ofDecimal negative (Text.digitsValue (whole ++ fraction)) (e - fraction.length)

/-- Reads a decimal with an optional sign. -/
def ofDecimalText? : Text → Option Binary64
  | '-' :: t => unsignedDecimal? true t
  | '+' :: t => unsignedDecimal? false t
  | t => unsignedDecimal? false t

/-- The decimal with `places` digits behind the point next to a value in quanta, if one reads back as
    it: of the two neighbours on that grid the one inside the rounding interval, of two the nearer, and of
    two as near the larger. -/
def decimalOnGrid? (quanta places : Nat) : Option Nat :=
  let scale := 10 ^ places
  let shift := quanta.log2 - 52
  let half := 2 * 2 ^ shift
  let lowHalf := if 0 < shift ∧ quanta = 2 ^ (shift + 52) then 2 ^ shift else half
  let closed := quanta / 2 ^ shift % 2 = 0
  let inside (n : Nat) : Bool :=
    let x := 4 * n * one
    let low := (4 * quanta - lowHalf) * scale
    let high := (4 * quanta + half) * scale
    if closed then low ≤ x && x ≤ high else low < x && x < high
  let below := quanta * scale / one
  let distanceBelow := quanta * scale - below * one
  let distanceAbove := (below + 1) * one - quanta * scale
  if inside below ∧ (¬ inside (below + 1) ∨ distanceBelow < distanceAbove) then some below
  else if inside (below + 1) then some (below + 1)
  else none

/-- The shortest decimal of a value in quanta, tried with ever more places. -/
def shortest (quanta : Nat) : Nat → Nat → Text
  | 0, _ => []
  | tries + 1, places =>
    match decimalOnGrid? quanta places with
    | some n =>
      Text.ofNat (n / 10 ^ places) ++
        (if places = 0 then [] else '.' :: Text.padZeros places (Text.ofNat (n % 10 ^ places)))
    | none => shortest quanta tries (places + 1)

/-- The least and the greatest 64-bit integer bound an integer. -/
def saturate (n : Int) : Int := max (-(2 ^ 63)) (min n (2 ^ 63 - 1))

/-- The text of a number: a whole one as a 64-bit integer, the nearest if it is too large, any other
    as its shortest decimal. -/
def toText (x : Binary64) : Text :=
  match x with
  | .nan => "NaN".toList
  | .infinite negative => if negative then "-inf".toList else "inf".toList
  | .finite negative quanta =>
    match x.toInt? with
    | some n => Text.ofInt (saturate n)
    | none => (if negative then ['-'] else []) ++ shortest quanta 1100 0

end ProxyRouting.Binary64
