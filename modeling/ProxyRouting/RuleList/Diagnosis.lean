import ProxyRouting.Condition.Analysis
import ProxyRouting.RuleList.Basic

/-!
What is wrong with the conditions of a list: those that have no analysis, and those that can be seen
never to match because their pattern is broken or their range is empty.
-/
namespace ProxyRouting

/-- What is wrong with a condition. -/
inductive Defect
  | invalid (e : ConditionError)
  | brokenPattern
  | emptyRange
  deriving DecidableEq, Repr

/-- The wording of a defect. -/
def Defect.message : Defect → Text
  | .invalid e => e.message
  | .brokenPattern => "invalid pattern, never matches".toList
  | .emptyRange => "empty range, never matches".toList

namespace Analysis

/-- A pattern that the analysis relies on gives no search. -/
def isBroken : Analysis → Bool
  | .url search => search.isNever
  | .host search => search.isNever
  | .bypass entry =>
    (match entry.host with
      | .pattern search => search.isNever
      | _ => false) || entry.url.any Regex.Search.isNever
  | _ => false

/-- The range of the analysis holds nothing. -/
def isEmpty : Analysis → Bool
  | .hostLevels min max => max.toNat < min.toNat
  | .weekday rule => rule.days.bits = 0
  | .time first last => last.toNat < first.toNat
  | _ => false

/-- The defect that shows in an analysis. -/
def defect? (a : Analysis) : Option Defect :=
  if a.isBroken then some .brokenPattern else if a.isEmpty then some .emptyRange else none

end Analysis

/-- The defect of a condition. -/
def Condition.defect? (c : Condition) : Option Defect :=
  match c.analyze with
  | .ok a => a.defect?
  | .error e => some (.invalid e)

namespace RuleList

/-- A defect with the place and the text of its condition. -/
structure Problem where
  index : Nat
  condition : Text
  defect : Defect
  deriving DecidableEq, Repr

/-- The wording of a problem, which counts conditions from one. -/
def Problem.message (p : Problem) : Text :=
  '#' :: Text.ofNat (p.index + 1) ++ ' ' :: Text.cite p.condition ++ ": ".toList ++ p.defect.message

/-- The problems of conditions, the first of which stands at the given place. -/
def problemsFrom : Nat → RuleList → List Problem
  | _, [] => []
  | index, c :: cs => (c.defect?.map fun d => ⟨index, c.toText, d⟩).toList ++ problemsFrom (index + 1) cs

/-- The problems of a list. -/
def problems (cs : RuleList) : List Problem := problemsFrom 0 cs

end RuleList
end ProxyRouting
