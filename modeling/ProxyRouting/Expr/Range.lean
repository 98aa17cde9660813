import ProxyRouting.Expr.Basic

/-!
Range checks as expressions. The plain form compares a value with both bounds. `between` picks the
cheapest form of the same meaning: an equality, the constant false, a probe into a string with one
character for each number of the range, or a call of a checking function.
-/
namespace ProxyRouting.Expr

/-- The characters of the probed strings. -/
def rangeTable : Text := "0123456789abcdefghijklmnopqrstuvwxyz".toList

/-- Spans below this are checked by probing a string. -/
def probeSpan : Int := 32

/-- The check as two comparisons. -/
def plainRange (value : Expr) (min max : Int) : Expr :=
  .binary .and (.binary .le (.number min) value) (.binary .le value (.number max))

/-- The string to probe for a range, one character for each number in it: its own digits where the
    table has them. -/
def probeText (min max : Int) : Text :=
  let count := (max - min + 1).toNat
  if 0 ≤ min ∧ max < rangeTable.length then (rangeTable.drop min.toNat).take count else rangeTable.take count

/-- The value counted from the lower bound. -/
def fromBound (value : Expr) (min : Int) : Expr := if min = 0 then value else .binary .sub value (.number min)

/-- What a probe says about itself unless told otherwise. -/
def rangeComment (min max : Int) : Text :=
  Text.ofInt min ++ " <= value && value <= ".toList ++ Text.ofInt max

/-- The check by a string that has a character for each number of the range. -/
def probe (value : Expr) (min max : Int) : Expr :=
  .binary .gt ((Expr.string (probeText min max)).method "charCodeAt" [fromBound value min]) (.number 0)

/-- The check by a function of the value and the bounds. -/
def rangeCall (value : Expr) (min max : Int) : Expr :=
  .call
    (.function ["value".toList, "min".toList, "max".toList]
      (.binary .and (.binary .le (name "min") (name "value")) (.binary .le (name "value") (name "max"))))
    [value, .number min, .number max]

/-- An expression that is true when the value lies between the bounds, both included. -/
def between (value : Expr) (min max : Int) (comment : Option Text) : Expr :=
  if min = max then (Expr.binary .strictEq value (.number min)).withComment (comment.getD [])
  else if max < min then (Expr.bool false).withComment (comment.getD [])
  else if max - min < probeSpan then (probe value min max).withComment (comment.getD (rangeComment min max))
  else (rangeCall value min max).withComment (comment.getD [])

end ProxyRouting.Expr
