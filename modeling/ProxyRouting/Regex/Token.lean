import ProxyRouting.Regex.CodeSet
import ProxyRouting.Text.Digits

/-!
The tokens a script pattern is made of once its escapes, classes and groups are resolved, and their
spelling in the engine's notation. The engine knows many more notations; only what a token spells
is ever handed to it.
-/
namespace ProxyRouting.Regex

/-- What an opening parenthesis begins. -/
inductive Group
  | capture
  | plain
  | ahead
  | notAhead
  | behind
  | notBehind
  | named (name : Text)
  deriving DecidableEq, Repr

/-- How often something is repeated; counts keep the digits they were written with. -/
inductive Quantifier
  | star
  | plus
  | optional
  | exactly (count : Text)
  | atLeast (least : Text)
  | between (least most : Text)
  deriving DecidableEq, Repr

/-- One token of a pattern. -/
inductive Token
  /-- The start of the text. -/
  | start
  /-- The end of the text. -/
  | finish
  | bar
  /-- A character that stands for itself. -/
  | plain (c : Char)
  /-- A brace or bracket that stands for itself. -/
  | escaped (c : Char)
  /-- A character written by its code point. -/
  | code (c : Char)
  /-- Any one character of the ranges. -/
  | oneOf (ranges : List CharRange)
  /-- A place between a word character and none, or, inverted, any other place. -/
  | boundary (inverted : Bool)
  | backref (group : Nat)
  | namedBackref (name : Text)
  | opening (group : Group)
  | closing
  | quantifier (q : Quantifier) (isLazy : Bool)
  deriving DecidableEq, Repr

/-- The spelling of an opening parenthesis. -/
def Group.render : Group → Text
  | .capture => "(".toList
  | .plain => "(?:".toList
  | .ahead => "(?=".toList
  | .notAhead => "(?!".toList
  | .behind => "(?<=".toList
  | .notBehind => "(?<!".toList
  | .named name => "(?<".toList ++ name ++ ['>']

/-- The spelling of a quantifier without its lazy mark. -/
def Quantifier.render : Quantifier → Text
  | .star => ['*']
  | .plus => ['+']
  | .optional => ['?']
  | .exactly n => '\x7b' :: n ++ ['\x7d']
  | .atLeast n => '\x7b' :: n ++ [',', '\x7d']
  | .between n m => '\x7b' :: n ++ ',' :: m ++ ['\x7d']

/-- A character spelled by its code point. -/
def renderCode (c : Char) : Text := '\\' :: 'x' :: '\x7b' :: Text.hexUpper c.toNat ++ ['\x7d']

/-- A range of a class; one of a single character needs no dash. -/
def CharRange.render (r : CharRange) : Text :=
  if r.first = r.last then renderCode r.first else renderCode r.first ++ '-' :: renderCode r.last

/-- The spelling of the class without members. -/
def emptyClass : Text := "[^\\x\x7b0\x7d-\\x\x7b10FFFF\x7d]".toList

/-- The spelling of a place between a word character and none. -/
def boundaryText : Text :=
  "(?:(?<=[0-9A-Z_a-z])(?![0-9A-Z_a-z])|(?<![0-9A-Z_a-z])(?=[0-9A-Z_a-z]))".toList

/-- The spelling of a place between two word characters or two others. -/
def noBoundaryText : Text :=
  "(?:(?<=[0-9A-Z_a-z])(?=[0-9A-Z_a-z])|(?<![0-9A-Z_a-z])(?![0-9A-Z_a-z]))".toList

/-- The spelling of a token. -/
def Token.render : Token → Text
  | .start => ['^']
  | .finish => ['$']
  | .bar => ['|']
  | .plain c => [c]
  | .escaped c => ['\\', c]
  | .code c => renderCode c
  | .oneOf [] => emptyClass
  | .oneOf ranges => '[' :: ranges.flatMap CharRange.render ++ [']']
  | .boundary false => boundaryText
  | .boundary true => noBoundaryText
  | .backref n => "(?:\\".toList ++ Text.ofNat n ++ [')']
  | .namedBackref name => "\\k<".toList ++ name ++ ['>']
  | .opening group => group.render
  | .closing => [')']
  | .quantifier q isLazy => q.render ++ (if isLazy then ['?'] else [])

/-- The spelling of a pattern. -/
def render (tokens : List Token) : Text := tokens.flatMap Token.render

end ProxyRouting.Regex
