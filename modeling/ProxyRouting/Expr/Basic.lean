import ProxyRouting.Text.Digits
import ProxyRouting.Regex.Source

/-!
Expressions of the script language that decide where a request goes: literals, names, a handful of
operators, calls, member access, conditionals, functions of one expression, and comments, which mean
nothing.
-/
namespace ProxyRouting

/-- An operator between two operands. -/
inductive BinaryOp
  | strictEq
  | lt
  | le
  | gt
  | ge
  | sub
  | and
  | or
  deriving DecidableEq, Repr

/-- An operator before its operand. -/
inductive UnaryOp
  | typeOf
  | not
  deriving DecidableEq, Repr

/-- The spelling of an operator. -/
def BinaryOp.symbol : BinaryOp → Text
  | .strictEq => "===".toList
  | .lt => "<".toList
  | .le => "<=".toList
  | .gt => ">".toList
  | .ge => ">=".toList
  | .sub => "-".toList
  | .and => "&&".toList
  | .or => "||".toList

/-- The spelling of an operator. -/
def UnaryOp.symbol : UnaryOp → Text
  | .typeOf => "typeof".toList
  | .not => "!".toList

/-- An expression. -/
inductive Expr
  | bool (b : Bool)
  | number (n : Int)
  | string (t : Text)
  /-- A regular expression literal, by what stands between its slashes. -/
  | regex (source : Text)
  | ident (name : Text)
  | binary (op : BinaryOp) (left right : Expr)
  | unary (op : UnaryOp) (operand : Expr)
  | call (callee : Expr) (args : List Expr)
  /-- A constructor call. -/
  | construct (callee : Expr) (args : List Expr)
  | member (target : Expr) (property : Text)
  | subscript (target index : Expr)
  | conditional (test consequent alternative : Expr)
  /-- A function that returns the value of its body. -/
  | function (params : List Text) (body : Expr)
  /-- An expression behind a comment. -/
  | commented (comment : Text) (e : Expr)
  deriving Repr, Inhabited

namespace Expr

/-- A name from its spelling. -/
def name (s : String) : Expr := .ident s.toList

/-- A literal of a regular expression source, its slashes escaped. -/
def ofRegex (source : Text) : Expr := .regex (Regex.escapeSlashes source)

/-- A method call. -/
def method (target : Expr) (property : String) (args : List Expr) : Expr :=
  .call (.member target property.toList) args

/-- The test of a regular expression on a subject. -/
def regexTest (subject : Expr) (source : Text) : Expr := (ofRegex source).method "test" [subject]

/-- All of the expressions hold; of none, true. -/
def allOf : List Expr → Expr
  | [] => .bool true
  | e :: es => es.foldl (.binary .and) e

/-- One of the expressions holds; of none, false. -/
def anyOf : List Expr → Expr
  | [] => .bool false
  | e :: es => es.foldl (.binary .or) e

/-- The expression behind a comment; an empty comment is left out. -/
def withComment (comment : Text) (e : Expr) : Expr := if comment = [] then e else .commented comment e

/-- The expression behind all comments around it. -/
def uncommented : Expr → Expr
  | .commented _ e => e.uncommented
  | e => e

end Expr
end ProxyRouting
