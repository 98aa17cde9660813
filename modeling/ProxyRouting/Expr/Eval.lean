import ProxyRouting.Expr.Env
import ProxyRouting.Ip.Network
import ProxyRouting.Regex.Build

/-!
Evaluation. Expressions mean what the script language says they mean: the logical operators give one
of their operands, strings are compared and indexed by UTF-16 units, and a missing property is
undefined. A function sees the bindings of its caller, and only a call goes beyond the expression at
hand, so the depth of calls is what has to be bounded.
-/
namespace ProxyRouting

/-- Why an expression has no value. -/
inductive EvalError
  | unbound (name : Text)
  | notCallable (type : Text)
  | badProperty (target property : Text)
  | invalidRegex (source : Text)
  | tooDeep
  deriving DecidableEq, Repr

/-- The wording of an error. -/
def EvalError.message : EvalError → Text
  | .unbound name => name ++ " is not defined".toList
  | .notCallable type => type ++ " is not a function".toList
  | .badProperty target property =>
    "cannot read property ".toList ++ property ++ " of ".toList ++ target
  | .invalidRegex source => "invalid regular expression /".toList ++ source ++ ['/']
  | .tooDeep => "too many nested calls".toList

namespace Value

/-- Strict equality, which nothing but plain values of one kind can have. -/
def strictEquals : Value → Value → Bool
  | .undefined, .undefined => true
  | .bool a, .bool b => a == b
  | .number a, .number b => a.equals b
  | .string a, .string b => a == b
  | _, _ => false

/-- The order of two values: strings by their units, all else as numbers. -/
def compare? : Value → Value → Option Ordering
  | .string a, .string b => some (Text.unitOrder (Text.units a) (Text.units b))
  | a, b => Binary64.compare? a.toNumber b.toNumber

/-- An operator that takes both its operands. -/
def applyOp (op : BinaryOp) (left right : Value) : Value :=
  match op with
  | .strictEq => .bool (strictEquals left right)
  | .sub => .number (left.toNumber.sub right.toNumber)
  | .lt => .bool ((compare? left right).any Ordering.isLT)
  | .le => .bool ((compare? left right).any Ordering.isLE)
  | .gt => .bool ((compare? left right).any Ordering.isGT)
  | .ge => .bool ((compare? left right).any Ordering.isGE)
  | .and => if left.truthy then right else left
  | .or => if left.truthy then left else right

/-- The method of a value by a property name. -/
def method? (v : Value) (property : Text) : Option Method :=
  let methods : List Method := match v with
    | .string _ => [.charCodeAt, .indexOf, .split]
    | .regex _ => [.test]
    | .date _ => [.getDay, .getHours]
    | _ => []
  methods.find? fun m => m.name = property

/-- A property of a value. -/
def member (v : Value) (property : Text) : Except EvalError Value :=
  match v.method? property with
  | some m => .ok (.method v m)
  | none =>
    match v with
    | .undefined => .error (.badProperty v.typeOf property)
    | .string t => .ok (if property = "length".toList then ofNat (Text.unitLength t) else .undefined)
    | .array items => .ok (if property = "length".toList then ofNat items.length else .undefined)
    | _ => .ok .undefined

/-- The position a value names as an index. -/
def index? (v : Value) : Option Nat := v.toNumber.toInt?.bind Int.toNat?

/-- What stands at an index of a value. -/
def subscript (v index : Value) : Except EvalError Value :=
  match v with
  | .string t => .ok ((index.index?.bind fun i => (Text.units t)[i]?).elim .undefined fun unit => .string [Text.ofUnit unit])
  | .array items => .ok ((index.index?.bind fun i => items[i]?).getD .undefined)
  | .undefined => .error (.badProperty v.typeOf index.toNumber.toText)
  | _ => .ok .undefined

/-- The code of the unit at a position, the first one unless told otherwise. -/
def charCode (t : Text) (position : Value) : Value :=
  let index := match position with
    | .undefined => some 0
    | v => v.toNumber.truncate?
  .number ((index.bind fun i => (Text.units t)[i]?).elim .nan Binary64.ofNat)

/-- The position in units where a text first occurs in another, or -1. -/
def indexOf (t part : Text) : Value :=
  match Text.cut? part t with
  | some (before, _) => ofNat (Text.unitLength before)
  | none => .number (Binary64.ofInt (-1))

/-- A source that gives no pattern matches nothing. -/
def regexTest (source subject : Text) : Bool :=
  match Regex.compile source with
  | .ok pattern => pattern.finds subject
  | .error _ => false

/-- Calls a method. -/
def callMethod (receiver : Value) (m : Method) (arg : Value) : Value :=
  match receiver, m with
  | .string t, .charCodeAt => charCode t arg
  | .string t, .indexOf => indexOf t arg.toText
  | .string t, .split => .array ((Text.split arg.toText t).map .string)
  | .regex source, .test => .bool (regexTest source arg.toText)
  | .date t, .getDay => ofNat t.weekday
  | .date t, .getHours => ofNat t.hour
  | _, _ => .undefined

/-- The host is an address in the network that an address and a mask of the same family spell. -/
def isInNet (host pattern mask : Text) : Bool :=
  match Ip.Network.addressOfText? host, Ip.Network.addressOfText? pattern, Ip.Network.addressOfText? mask with
  | some host, some pattern, some mask =>
    pattern.isV4 == mask.isV4 &&
      ((Ip.maskLength? mask).bind (Ip.Network.of? pattern)).any fun network => network.contains host
  | _, _, _ => false

/-- The host is an address in a network. -/
def isInNetEx (host network : Text) : Bool :=
  match Ip.Network.addressOfText? host, Ip.Network.ofText? network with
  | some host, some network => network.contains host
  | _, _ => false

/-- Calls a given function. -/
def callBuiltin (now : LocalTime) (b : Builtin) (args : List Value) : Value :=
  let arg (i : Nat) : Value := args[i]?.getD .undefined
  match b with
  | .isInNet => .bool (isInNet (arg 0).toText (arg 1).toText (arg 2).toText)
  | .isInNetEx => .bool (isInNetEx (arg 0).toText (arg 1).toText)
  | .date => .string now.toLongText

/-- Constructs an object; only dates can be. -/
def construct (now : LocalTime) : Value → Except EvalError Value
  | .builtin .date => .ok (.date now)
  | v => .error (.notCallable v.typeOf)

/-- Calls a value; the body of a function is left to `callBody`. -/
def call (callBody : Env → Expr → Except EvalError Value) (env : Env) (callee : Value) (args : List Value) :
    Except EvalError Value :=
  match callee with
  | .method receiver m => .ok (callMethod receiver m (args.head?.getD .undefined))
  | .builtin b => .ok (callBuiltin env.now b args)
  | .function params body => callBody (env.bindParams params args) body
  | v => .error (.notCallable v.typeOf)

end Value

namespace Expr

/-- The value of a regular expression literal. -/
def regexLiteral (literal : Text) : Except EvalError Value :=
  let source := Regex.unescapeSlashes literal
  match Regex.tokenize source with
  | .ok _ => .ok (.regex source)
  | .error _ => .error (.invalidRegex source)

mutual

/-- The value of an expression, where `callBody` evaluates the bodies of called functions. -/
def evalWith (callBody : Env → Expr → Except EvalError Value) (env : Env) : Expr → Except EvalError Value
  | .bool b => .ok (.bool b)
  | .number n => .ok (.number (Binary64.ofInt n))
  | .string t => .ok (.string t)
  | .regex literal => regexLiteral literal
  | .ident name => (env.get? name).elim (.error (.unbound name)) .ok
  | .binary op left right => do
    let l ← evalWith callBody env left
    if op = .and ∧ l.truthy = false ∨ op = .or ∧ l.truthy then .ok l
    else
      let r ← evalWith callBody env right
      .ok (l.applyOp op r)
  | .unary .typeOf operand =>
    match operand.uncommented with
    | .ident name => .ok (.string ((env.get? name).getD .undefined).typeOf)
    | _ => (evalWith callBody env operand).map fun v => .string v.typeOf
  | .unary .not operand => (evalWith callBody env operand).map fun v => .bool !v.truthy
  | .call callee args => do
    let f ← evalWith callBody env callee
    let vs ← evalArgs callBody env args
    f.call callBody env vs
  | .construct callee _ => do
    let f ← evalWith callBody env callee
    f.construct env.now
  | .member target property => do
    let v ← evalWith callBody env target
    v.member property
  | .subscript target index => do
    let v ← evalWith callBody env target
    let i ← evalWith callBody env index
    v.subscript i
  | .conditional test consequent alternative => do
    let t ← evalWith callBody env test
    if t.truthy then evalWith callBody env consequent else evalWith callBody env alternative
  | .function params body => .ok (.function params body)
  | .commented _ e => evalWith callBody env e

/-- The values of arguments, from the first on. -/
def evalArgs (callBody : Env → Expr → Except EvalError Value) (env : Env) :
    List Expr → Except EvalError (List Value)
  | [] => .ok []
  | e :: es => do
    let v ← evalWith callBody env e
    let vs ← evalArgs callBody env es
    .ok (v :: vs)

end

/-- The value of an expression whose function calls are nested at most `depth` deep. -/
def evalWithin : Nat → Env → Expr → Except EvalError Value
  | 0 => evalWith fun _ _ => .error .tooDeep
  | depth + 1 => evalWith (evalWithin depth)

/-- How deep function calls may be nested. -/
def maxCallDepth : Nat := 2 ^ 32

/-- The value of an expression. -/
def eval (env : Env) (e : Expr) : Except EvalError Value := evalWithin maxCallDepth env e

/-- The value of an expression as a truth value. -/
def evalBool (env : Env) (e : Expr) : Except EvalError Bool := (eval env e).map Value.truthy

end Expr
end ProxyRouting
