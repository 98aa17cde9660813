import ProxyRouting.Expr.Basic
import ProxyRouting.LocalTime
import ProxyRouting.Number.Decimal
import ProxyRouting.Text.Units

/-!
What expressions evaluate to, and how one kind of value is taken for another: as a truth value, as a
number, as a text.
-/
namespace ProxyRouting

/-- A function that scripts are given. -/
inductive Builtin
  | isInNet
  | isInNetEx
  | date
  deriving DecidableEq, Repr

/-- A method of a string, of a regular expression or of a date. -/
inductive Method
  | charCodeAt
  | indexOf
  | split
  | test
  | getDay
  | getHours
  deriving DecidableEq, Repr

/-- The property name a method is reached by. -/
def Method.name : Method → Text
  | .charCodeAt => "charCodeAt".toList
  | .indexOf => "indexOf".toList
  | .split => "split".toList
  | .test => "test".toList
  | .getDay => "getDay".toList
  | .getHours => "getHours".toList

/-- A value. -/
inductive Value
  | undefined
  | bool (b : Bool)
  | number (n : Binary64)
  | string (t : Text)
  /-- A regular expression, by its source. -/
  | regex (source : Text)
  | array (items : List Value)
  | date (t : LocalTime)
  | builtin (b : Builtin)
  | function (params : List Text) (body : Expr)
  /-- A method of the value it was read from. -/
  | method (receiver : Value) (m : Method)
  deriving Repr, Inhabited

namespace Value

/-- A natural number as a value. -/
def ofNat (n : Nat) : Value := .number (Binary64.ofNat n)

/-- The value counts as true. -/
def truthy : Value → Bool
  | .undefined => false
  | .bool b => b
  | .number n => n.truthy
  | .string t => !t.isEmpty
  | _ => true

/-- What `typeof` says of the value. -/
def typeOf : Value → Text
  | .undefined => "undefined".toList
  | .bool _ => "boolean".toList
  | .number _ => "number".toList
  | .string _ => "string".toList
  | .regex _ => "object".toList
  | .array _ => "object".toList
  | .date _ => "object".toList
  | .builtin _ => "function".toList
  | .function _ _ => "function".toList
  | .method _ _ => "function".toList

/-- A character that may occur in a decimal. -/
def isDecimalChar (c : Char) : Bool := c.isDigit || ".eE+-".toList.contains c

/-- A text as a number: white space around it aside, nothing is zero and what is no decimal is NaN. -/
def textToNumber (t : Text) : Binary64 :=
  let t := Text.trim t
  if t = [] then .finite false 0
  else if t.all isDecimalChar then (Binary64.ofDecimalText? t).getD .nan
  else .nan

/-- The value as a number. -/
def toNumber : Value → Binary64
  | .bool b => Binary64.ofNat b.toNat
  | .number n => n
  | .string t => textToNumber t
  | _ => .nan

mutual

/-- The value as a text. -/
def toText : Value → Text
  | .undefined => "undefined".toList
  | .bool b => if b then "true".toList else "false".toList
  | .number n => n.toText
  | .string t => t
  | .regex source => '/' :: source ++ ['/']
  | .array items => Text.join [','] (itemTexts items)
  | .date t => t.toLongText
  | .builtin _ => "function".toList
  | .function _ _ => "function".toList
  | .method _ _ => "function".toList

/-- The texts of the items of an array. -/
def itemTexts : List Value → List Text
  | [] => []
  | v :: vs => v.toText :: itemTexts vs

end

end Value
end ProxyRouting
