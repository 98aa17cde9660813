import ProxyRouting.Expr.Basic
import ProxyRouting.Regex.Build

/-!
Searches for a regular expression that cannot fail: a source that gives no pattern finds nothing, and
is written as one that finds nothing.
-/
namespace ProxyRouting.Regex

/-- A source with its pattern, or the search that finds nothing. -/
inductive Search
  | compiled (source : Text) (pattern : Pattern) (compiles : compile source = .ok pattern)
  | never

namespace Search

/-- A source that finds nothing. -/
def neverSource : Text := "(?!)".toList

/-- The search for a source. -/
def ofSource (source : Text) : Search :=
  match h : compile source with
  | .ok pattern => .compiled source pattern h
  | .error _ => .never

/-- The source as scripts get it. -/
def source : Search → Text
  | .compiled source _ _ => source
  | .never => neverSource

/-- The search finds nothing for want of a pattern. -/
def isNever : Search → Bool
  | .compiled _ _ _ => false
  | .never => true

/-- The search finds something in a text. -/
def finds : Search → Text → Bool
  | .compiled _ pattern _, t => pattern.finds t
  | .never, _ => false

/-- The test of the search on what a name stands for. -/
def toExpr (s : Search) (subject : String) : Expr := Expr.regexTest (.name subject) s.source

end Search
end ProxyRouting.Regex
