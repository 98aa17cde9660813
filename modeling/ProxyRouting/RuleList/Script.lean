import ProxyRouting.Condition.Analysis
import ProxyRouting.Expr.Printer
import ProxyRouting.RuleList.Basic

/-!
Lists as scripts: the predicate that one of the conditions holds, each of them under a comment with its
text, the function of it, and a whole script that sends matching requests to a proxy.
-/
namespace ProxyRouting.RuleList

/-- The expression of a condition under its text. -/
def annotated (c : Condition) : Except ConditionError Expr := c.toExpr.map (Expr.withComment c.toText)

/-- One of the conditions holds. -/
def predicate (cs : RuleList) : Except ConditionError Expr := (cs.mapM annotated).map Expr.anyOf

/-- What the function of a list takes. -/
def parameters : List Text := ["url".toList, "host".toList, "scheme".toList]

/-- The predicate as a function. -/
def matcher (cs : RuleList) : Except ConditionError Expr := (predicate cs).map (Expr.function parameters)

/-- The scheme as scripts find it: what precedes the first colon of the URL. -/
def schemeExpr : Expr :=
  (Expr.name "url").method "substr" [.number 0, (Expr.name "url").method "indexOf" [.string [':']]]

/-- What a script answers: the proxy if the request matches. -/
def decision (proxy : Text) : Expr :=
  .conditional (.call (.name "matches") (parameters.map .ident)) (.string proxy) (.string "DIRECT".toList)

/-- A script around the function of a list. -/
def scriptText (matcher : Expr) (proxy : Text) : Text :=
  "function FindProxyForURL(url, host) \x7b\n".toList ++
    "    var scheme = ".toList ++ schemeExpr.render ++ ";\n".toList ++
    "    var matches = ".toList ++ matcher.render ++ ";\n".toList ++
    "    return ".toList ++ (decision proxy).render ++ ";\n".toList ++ "\x7d\n".toList

/-- The script that sends the requests of a list to a proxy, and all others directly. -/
def script (cs : RuleList) (proxy : Text) : Except ConditionError Text :=
  (matcher cs).map fun e => scriptText e proxy

end ProxyRouting.RuleList
