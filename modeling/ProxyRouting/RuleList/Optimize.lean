import ProxyRouting.RuleList.Basic

/-!
Shorter lists that match the same: without conditions that are switched off, without repetitions, and
down to a single condition where one always matches.
-/
namespace ProxyRouting.RuleList

/-- A shortened list, and what was left out of it. -/
structure Optimized where
  list : RuleList
  before : Nat
  after : Nat
  /-- Repetitions left out. -/
  repeated : Nat
  /-- Conditions left out for being switched off. -/
  disabled : Nat
  /-- A condition that always matches stands for the whole list. -/
  alwaysTrue : Bool
  deriving DecidableEq, Repr

/-- The conditions that are not switched off. -/
def active (cs : RuleList) : RuleList := cs.filter fun c => c.kind ≠ .never

/-- The condition that always matches alone, if it is there. -/
def collapse (cs : RuleList) : RuleList := if .always ∈ cs then [.always] else cs

/-- The first condition of each tag that has not been seen. -/
def distinctFrom : List Text → RuleList → RuleList
  | _, [] => []
  | seen, c :: cs => if c.tag ∈ seen then distinctFrom seen cs else c :: distinctFrom (c.tag :: seen) cs

/-- The first condition of each tag. -/
def distinct (cs : RuleList) : RuleList := distinctFrom [] cs

/-- Shortens a list. -/
def optimize (cs : RuleList) : Optimized :=
  let collapsed := collapse (active cs)
  let list := distinct collapsed
  { list
    before := cs.length
    after := list.length
    repeated := collapsed.length - list.length
    disabled := cs.length - (active cs).length
    alwaysTrue := .always ∈ active cs }

end ProxyRouting.RuleList
