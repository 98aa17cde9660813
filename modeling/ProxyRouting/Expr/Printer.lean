import ProxyRouting.Expr.Basic
import ProxyRouting.Text.Quoted

/-!
The source text of an expression, on one line and with only the parentheses that precedence demands.
-/
namespace ProxyRouting

/-- How tightly an operator binds. -/
def BinaryOp.precedence : BinaryOp → Nat
  | .or => 5
  | .and => 6
  | .strictEq => 10
  | .lt => 11
  | .le => 11
  | .gt => 11
  | .ge => 11
  | .sub => 13

namespace Expr

/-- How tightly a conditional binds. -/
def conditionalPrecedence : Nat := 3

/-- How tightly an operator before its operand binds. -/
def unaryPrecedence : Nat := 15

/-- How tightly calls and member access bind. -/
def callPrecedence : Nat := 18

/-- How tightly an expression binds; comments around it do not matter. -/
def precedence : Expr → Nat
  | .bool _ => 20
  | .string _ => 20
  | .regex _ => 20
  | .ident _ => 20
  | .number n => if n < 0 then unaryPrecedence else 20
  | .binary op _ _ => op.precedence
  | .unary _ _ => unaryPrecedence
  | .call _ _ => callPrecedence
  | .construct _ _ => callPrecedence
  | .member _ _ => callPrecedence
  | .subscript _ _ => callPrecedence
  | .conditional _ _ _ => conditionalPrecedence
  | .function _ _ => 1
  | .commented _ e => e.precedence

/-- A comment's text with whatever would end the comment taken apart. -/
def defuse : Text → Text
  | '*' :: '/' :: t => '*' :: ' ' :: '/' :: defuse t
  | c :: t => c :: defuse t
  | [] => []

/-- Parentheses around a text, where needed. -/
def enclose (needed : Bool) (t : Text) : Text := if needed then '(' :: t ++ [')'] else t

/-- A number where a dot may follow: `1.x` would read as a decimal. -/
def isNumber (e : Expr) : Bool :=
  match e.uncommented with
  | .number _ => true
  | _ => false

mutual

/-- The text of an expression where something binds with the strength `outer` around it. -/
def print (outer : Nat) : Expr → Text
  | .commented comment e => "/* ".toList ++ defuse comment ++ " */ ".toList ++ print outer e
  | .bool b => enclose (20 < outer) (if b then "true".toList else "false".toList)
  | .number n => enclose ((if n < 0 then unaryPrecedence else 20) < outer) (Text.ofInt n)
  | .string t => enclose (20 < outer) (Text.quote t)
  | .regex source => enclose (20 < outer) ('/' :: (if source = [] then "(?:)".toList else source) ++ ['/'])
  | .ident name => enclose (20 < outer) name
  | .binary op left right =>
    enclose (op.precedence < outer)
      (print op.precedence left ++ ' ' :: op.symbol ++ ' ' :: print (op.precedence + 1) right)
  | .unary op operand =>
    enclose (unaryPrecedence < outer)
      (op.symbol ++ (if op = .typeOf then [' '] else []) ++ print unaryPrecedence operand)
  | .call callee args =>
    enclose (callPrecedence < outer) (print callPrecedence callee ++ '(' :: printArgs args ++ [')'])
  | .construct callee args =>
    enclose (callPrecedence < outer)
      ("new ".toList ++ print callPrecedence callee ++ '(' :: printArgs args ++ [')'])
  | .member target property =>
    enclose (callPrecedence < outer)
      (enclose target.isNumber (print (if target.isNumber then 0 else callPrecedence) target) ++ '.' :: property)
  | .subscript target index =>
    enclose (callPrecedence < outer)
      (enclose target.isNumber (print (if target.isNumber then 0 else callPrecedence) target) ++
        '[' :: print 0 index ++ [']'])
  | .conditional test consequent alternative =>
    enclose (conditionalPrecedence < outer)
      (print (conditionalPrecedence + 1) test ++ " ? ".toList ++ print conditionalPrecedence consequent ++
        " : ".toList ++ print conditionalPrecedence alternative)
  | .function params body =>
    enclose (1 < outer)
      ("function (".toList ++ Text.join ", ".toList params ++ ") \x7b return ".toList ++ print 0 body ++
        "; \x7d".toList)

/-- Arguments with commas between them. -/
def printArgs : List Expr → Text
  | [] => []
  | [e] => print conditionalPrecedence e
  | e :: es => print conditionalPrecedence e ++ ", ".toList ++ printArgs es

end

/-- A comment stands in front of what it is about, whatever binds around the two. -/
theorem print_commented (outer : Nat) (comment : Text) (e : Expr) : print outer (.commented comment e) =
    "/* ".toList ++ defuse comment ++ " */ ".toList ++ print outer e := by
  rw [print]

/-- The source text of an expression. -/
def render (e : Expr) : Text := print 0 e

end Expr
end ProxyRouting
