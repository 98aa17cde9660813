import ProxyRouting.Regex.Explore
import ProxyRouting.Regex.Token

/-!
Patterns as trees, and where in a text each of them can lead. A place is a position with the ends of
the groups passed so far. `run` lists the places a pattern leads to in the order of preference of a
backtracking search, each once.
-/
namespace ProxyRouting.Regex

/-- A pattern as a tree. -/
inductive Pattern
  | empty
  /-- The start of the text. -/
  | start
  /-- The end of the text. -/
  | finish
  | char (c : Char)
  | oneOf (ranges : List CharRange)
  | seq (p q : Pattern)
  | alt (p q : Pattern)
  /-- At least `least` times and at most `most`, preferring more if `greedy`. -/
  | loop (p : Pattern) (least : Nat) (most : Option Nat) (greedy : Bool)
  | group (index : Nat) (p : Pattern)
  /-- The text last matched by a group. -/
  | backref (index : Nat)
  /-- The pattern leads somewhere from here, or, negated, nowhere. -/
  | look (negated : Bool) (p : Pattern)
  /-- The pattern leads to here from `width` characters before, or, negated, does not. -/
  | behind (negated : Bool) (width : Nat) (p : Pattern)
  deriving DecidableEq, Repr

/-- Which end of which group a mark records. -/
inductive Mark
  | opened (group : Nat)
  | closed (group : Nat)
  deriving DecidableEq, Repr

/-- A position in the text, with the marks set on the way to it. -/
structure Place where
  pos : Nat
  marks : List (Mark × Nat)
  deriving DecidableEq, Repr

namespace Place

/-- Sets a mark to the current position. -/
def mark (m : Mark) (s : Place) : Place :=
  { s with marks := (m, s.pos) :: s.marks.filter fun entry => entry.1 ≠ m }

/-- The place one character further. -/
def next (s : Place) : Place := { s with pos := s.pos + 1 }

/-- The text last matched by a group that has been left. -/
def captured? (text : Text) (group : Nat) (s : Place) : Option Text :=
  match s.marks.lookup (.opened group), s.marks.lookup (.closed group) with
  | some first, some last => if first ≤ last then some ((text.drop first).take (last - first)) else none
  | _, _ => none

end Place

/-- The places a loop leads to: `least` rounds, then as many more as `most` allows. Without a bound
    every further round has to move on. -/
def loopPlaces (step : Place → List Place) (size least : Nat) (most : Option Nat) (greedy : Bool)
    (s : Place) : List Place :=
  let further (t : Place) : List Place :=
    match most with
    | none => reach (fun u => (step u).filter fun v => u.pos < v.pos) (size - t.pos) greedy t
    | some most =>
      (reach (fun (round, u) => (step u).map fun v => (round + 1, v)) (most - least) greedy (0, t)).map Prod.snd
  ((iterate step least [s]).flatMap further).eraseDups

/-- The places a pattern leads to, the preferred ones first. -/
def Pattern.run (text : Text) : Pattern → Place → List Place
  | .empty, s => [s]
  | .start, s => if s.pos = 0 then [s] else []
  | .finish, s => if s.pos = text.length then [s] else []
  | .char c, s => if text[s.pos]? = some c then [s.next] else []
  | .oneOf ranges, s =>
    match text[s.pos]? with
    | some c => if ranges.any (·.contains c) then [s.next] else []
    | none => []
  | .seq p q, s => ((p.run text s).flatMap (q.run text)).eraseDups
  | .alt p q, s => (p.run text s ++ q.run text s).eraseDups
  | .loop p least most greedy, s => loopPlaces (p.run text) text.length least most greedy s
  | .group index p, s => ((p.run text (s.mark (.opened index))).map fun t => t.mark (.closed index)).eraseDups
  | .backref index, s =>
    match s.captured? text index with
    | some found => if found.isPrefixOf (text.drop s.pos) then [{ s with pos := s.pos + found.length }] else []
    | none => []
  | .look false p, s => ((p.run text s).take 1).map fun t => { t with pos := s.pos }
  | .look true p, s => if (p.run text s).isEmpty then [s] else []
  | .behind false width p, s =>
    if width ≤ s.pos then ((p.run text { s with pos := s.pos - width }).take 1).map fun t => { t with pos := s.pos }
    else []
  | .behind true width p, s =>
    if width ≤ s.pos ∧ (p.run text { s with pos := s.pos - width }).isEmpty = false then [] else [s]

/-- How many characters every match of the pattern has, if it is the same number for all. -/
def Pattern.width? : Pattern → Option Nat
  | .empty => some 0
  | .start => some 0
  | .finish => some 0
  | .char _ => some 1
  | .oneOf _ => some 1
  | .seq p q => p.width?.bind fun m => q.width?.map fun n => m + n
  | .alt p q => p.width?.bind fun m => q.width?.bind fun n => if m = n then some m else none
  | .loop p least most _ => if most = some least then p.width?.map (· * least) else none
  | .group _ p => p.width?
  | .backref _ => none
  | .look _ _ => some 0
  | .behind _ _ _ => some 0

/-- Marks only the groups that some reference asks for. -/
def Pattern.keepGroups (used : List Nat) : Pattern → Pattern
  | .seq p q => .seq (p.keepGroups used) (q.keepGroups used)
  | .alt p q => .alt (p.keepGroups used) (q.keepGroups used)
  | .loop p least most greedy => .loop (p.keepGroups used) least most greedy
  | .group index p => if index ∈ used then .group index (p.keepGroups used) else p.keepGroups used
  | .look negated p => .look negated (p.keepGroups used)
  | .behind negated width p => .behind negated width (p.keepGroups used)
  | p => p

end ProxyRouting.Regex
