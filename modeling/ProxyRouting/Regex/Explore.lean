/-!
Ordered exploration of a step relation: repeating a step a fixed number of times, and walking on from
a state as long as steps lead anywhere, with every state listed once, in the order in which a
backtracking search would come to leave it.
-/
namespace ProxyRouting.Regex

variable {σ : Type} [DecidableEq σ]

/-- The states after exactly `count` steps, each listed at its first way there. -/
def iterate (step : σ → List σ) : Nat → List σ → List σ
  | 0, states => states
  | count + 1, states =>
    let next := (states.flatMap step).eraseDups
    if next = states then states else iterate step count next

/-- All states within `depth` steps, longer ways first: a state is listed behind those it leads to. -/
def outward (step : σ → List σ) : Nat → List σ → σ → List σ
  | 0, seen, s => if s ∈ seen then seen else seen ++ [s]
  | depth + 1, seen, s => if s ∈ seen then seen else (step s).foldl (outward step depth) seen ++ [s]

/-- All states within `depth` steps, shorter ways first: a state is listed before those it leads to. -/
def onward (step : σ → List σ) : Nat → List σ → σ → List σ
  | 0, seen, s => if s ∈ seen then seen else seen ++ [s]
  | depth + 1, seen, s => if s ∈ seen then seen else (step s).foldl (onward step depth) (seen ++ [s])

/-- All states within `depth` steps of `s`, the longer ways first if `greedy`. -/
def reach (step : σ → List σ) (depth : Nat) (greedy : Bool) (s : σ) : List σ :=
  if greedy then outward step depth [] s else onward step depth [] s

end ProxyRouting.Regex
