import ProxyRouting.Condition.Analysis
import ProxyRouting.Condition.TextForm

/-!
Conditions that remember their analysis. A cache keeps one record, which serves as long as the tag
asked for is the record's own; a computation that fails leaves the record in place. The number of a
record tells it from any other that the cache has held.
-/
namespace ProxyRouting

/-- An analysis with its tag and, once asked for, its expression. -/
structure CacheRecord where
  tag : Text
  analysis : Analysis
  compiled : Option Expr
  number : Nat

/-- The current record, and how many the cache has held. -/
structure AnalysisCache where
  slot : Option CacheRecord
  count : Nat

namespace AnalysisCache

/-- A cache that has held nothing yet. -/
def empty : AnalysisCache := ⟨none, 0⟩

/-- Forgets the record. -/
def clear (cache : AnalysisCache) : AnalysisCache := { cache with slot := none }

/-- The record for a tag. -/
def find? (cache : AnalysisCache) (tag : Text) : Option CacheRecord := cache.slot.filter fun r => r.tag = tag

/-- Takes a new record in. -/
def fill (cache : AnalysisCache) (tag : Text) (analysis : Analysis) : CacheRecord × AnalysisCache :=
  let r : CacheRecord := ⟨tag, analysis, none, cache.count⟩
  (r, ⟨some r, cache.count + 1⟩)

/-- The record for a tag, computed if need be. -/
def get (cache : AnalysisCache) (tag : Text) (compute : Unit → Except ConditionError Analysis) :
    Except ConditionError CacheRecord × AnalysisCache :=
  match cache.find? tag with
  | some r => (.ok r, cache)
  | none =>
    match compute () with
    | .ok analysis =>
      let (r, cache) := cache.fill tag analysis
      (.ok r, cache)
    | .error e => (.error e, cache)

end AnalysisCache

/-- A condition with its cache. -/
structure LiveCondition where
  condition : Condition
  cache : AnalysisCache

namespace LiveCondition

/-- A condition that nothing is known about yet. -/
def fresh (c : Condition) : LiveCondition := ⟨c, .empty⟩

/-- Replaces the condition and keeps the cache. -/
def replace (l : LiveCondition) (c : Condition) : LiveCondition := { l with condition := c }

/-- A copy, which does not share what is known. -/
def clone (l : LiveCondition) : LiveCondition := fresh l.condition

/-- The record of the condition. -/
def analyze (l : LiveCondition) : Except ConditionError CacheRecord × LiveCondition :=
  let (r, cache) := l.cache.get l.condition.tag fun () => l.condition.analyze
  (r, { l with cache })

/-- The condition matches a request at a local time. -/
def isMatch (l : LiveCondition) (r : Request) (now : LocalTime) : Except ConditionError Bool × LiveCondition :=
  let (found, l) := l.analyze
  (found.map fun c => c.analysis.isMatch r now, l)

/-- The expression of the condition, which the record remembers. -/
def compile (l : LiveCondition) : Except ConditionError Expr × LiveCondition :=
  match l.analyze with
  | (.error e, l) => (.error e, l)
  | (.ok r, l) =>
    match r.compiled with
    | some e => (.ok e, l)
    | none =>
      let e := r.analysis.toExpr
      (.ok e, { l with cache := { l.cache with slot := some { r with compiled := some e } } })

end LiveCondition
end ProxyRouting
