import ProxyRouting.Condition.Bypass

/-!
Analysis of conditions: whatever can be worked out before a request is known. An analysis answers for
a request and a time, and gives an expression with the same answers. Only an address that does not
parse cannot be analyzed.
-/
namespace ProxyRouting

/-- A condition ready to be asked. -/
inductive Analysis
  | constant (b : Bool)
  | url (search : Regex.Search)
  | host (search : Regex.Search)
  | bypass (entry : Bypass)
  | keyword (t : Text)
  | ip (network : Ip.Network)
  | hostLevels (min max : UInt32)
  | weekday (rule : WeekdayRule)
  | time (first last : UInt8)

namespace Analysis

/-- A plain `http` request whose URL has the keyword in it. -/
def keywordMatch (keyword : Text) (r : Request) : Bool :=
  r.scheme = "http".toList && Text.contains keyword r.url

/-- The same as an expression. -/
def keywordExpr (keyword : Text) : Expr :=
  .binary .and (Bypass.schemeExpr "http".toList)
    (.binary .ge ((Expr.name "url").method "indexOf" [.string keyword]) (.number 0))

/-- The analysis matches a request at a local time. -/
def isMatch (a : Analysis) (r : Request) (now : LocalTime) : Bool :=
  match a with
  | .constant b => b
  | .url search => search.finds r.url
  | .host search => search.finds r.host
  | .bypass entry => entry.isMatch r
  | .keyword t => keywordMatch t r
  | .ip network => network.containsHost r.host
  | .hostLevels min max => levelsMatch r.host min max
  | .weekday rule => rule.days.contains now.weekday
  | .time first last => hourMatch now.hour first last

/-- The analysis as an expression over `url`, `host` and `scheme`. -/
def toExpr : Analysis → Expr
  | .constant b => .bool b
  | .url search => search.toExpr "url"
  | .host search => search.toExpr "host"
  | .bypass entry => entry.toExpr
  | .keyword t => keywordExpr t
  | .ip network => network.toExpr
  | .hostLevels min max => levelsExpr min max
  | .weekday rule => rule.toExpr
  | .time first last => hourExpr first last

end Analysis

namespace Condition

/-- The analysis of a condition. -/
def analyze : Condition → Except ConditionError Analysis
  | .always => .ok (.constant true)
  | .never _ => .ok (.constant false)
  | .urlRegex pattern => .ok (.url (.ofSource pattern))
  | .urlWildcard pattern => .ok (.url (.ofSource (Glob.listToRegex true pattern)))
  | .hostRegex pattern => .ok (.host (.ofSource pattern))
  | .hostWildcard pattern => .ok (.host (.ofSource (HostPattern.toRegex pattern)))
  | .bypass pattern => .ok (.bypass (.ofText pattern))
  | .keyword pattern => .ok (.keyword pattern)
  | .ip address length => (Ip.Network.ofFields address length).map .ip
  | .hostLevels min max => .ok (.hostLevels min max)
  | .weekday mask first last => .ok (.weekday (.of mask first last))
  | .time first last => .ok (.time first last)

/-- The condition matches a request at a local time. -/
def isMatch (c : Condition) (r : Request) (now : LocalTime) : Except ConditionError Bool :=
  c.analyze.map fun a => a.isMatch r now

/-- The condition as an expression over `url`, `host` and `scheme`. -/
def toExpr (c : Condition) : Except ConditionError Expr := c.analyze.map Analysis.toExpr

end Condition
end ProxyRouting
