import ProxyRouting.Regex.Pattern

/-!
Searching without back references. Whether such a pattern leads from a position into a set of positions
does not depend on how the position was come by, so a whole text is searched at once: `starts` gives
for the positions where a pattern may end those where it may begin. Only back references need the
ordered `run`.
-/
namespace ProxyRouting.Regex

/-- A set of positions of a text: a flag for each, that of the end included. -/
abbrev Positions := List Bool

namespace Positions

/-- All positions of a text. -/
def all (text : Text) : Positions := List.replicate (text.length + 1) true

/-- The positions in either set. -/
def union (s t : Positions) : Positions := List.zipWith (· || ·) s t

/-- The positions in both sets. -/
def inter (s t : Positions) : Positions := List.zipWith (· && ·) s t

/-- The positions in the first set alone. -/
def diff (s t : Positions) : Positions := List.zipWith (fun a b => a && !b) s t

/-- No position. -/
def none (s : Positions) : Positions := s.map fun _ => false

/-- At most the start. -/
def first : Positions → Positions
  | [] => []
  | flag :: s => flag :: none s

/-- At most the end. -/
def last : Positions → Positions
  | [] => []
  | [flag] => [flag]
  | _ :: s => false :: last s

/-- The positions with a character of a kind behind which is one of the set. -/
def before (holds : Char → Bool) : Text → Positions → Positions
  | c :: text, _ :: flag :: s => (flag && holds c) :: before holds text (flag :: s)
  | _, s => none s

/-- The positions `width` characters behind those of the set. -/
def behind (width : Nat) (s : Positions) : Positions :=
  (List.replicate (min width s.length) false ++ s).take s.length

/-- The set after as many rounds of a step, each replacing it; one that changes nothing is the last. -/
def replaced (step : Positions → Positions) : Nat → Positions → Positions
  | 0, s => s
  | rounds + 1, s =>
    let next := step s
    if next = s then s else replaced step rounds next

/-- The set after as many rounds of a step, each adding to it; one that adds nothing is the last. -/
def grown (step : Positions → Positions) (rounds : Nat) (s : Positions) : Positions :=
  replaced (fun s => union s (step s)) rounds s

end Positions

/-- Where a pattern may begin so as to end in the given set. -/
def Pattern.starts (text : Text) : Pattern → Positions → Positions
  | .empty, s => s
  | .start, s => s.first
  | .finish, s => s.last
  | .char c, s => s.before (· = c) text
  | .oneOf ranges, s => s.before (fun c => ranges.any (·.contains c)) text
  | .seq p q, s => p.starts text (q.starts text s)
  | .alt p q, s => (p.starts text s).union (q.starts text s)
  | .loop p least most _, s =>
    let rounds := (most.map (· - least)).getD s.length
    Positions.replaced (p.starts text) least (Positions.grown (p.starts text) rounds s)
  | .group _ p, s => p.starts text s
  | .backref _, s => s.none
  | .look false p, s => s.inter (p.starts text (.all text))
  | .look true p, s => s.diff (p.starts text (.all text))
  | .behind false width p, s => s.inter ((p.starts text (.all text)).behind width)
  | .behind true width p, s => s.diff ((p.starts text (.all text)).behind width)

/-- Somewhere in the pattern is a back reference. -/
def Pattern.refersBack : Pattern → Bool
  | .backref _ => true
  | .seq p q => p.refersBack || q.refersBack
  | .alt p q => p.refersBack || q.refersBack
  | .loop p _ _ _ => p.refersBack
  | .group _ p => p.refersBack
  | .look _ p => p.refersBack
  | .behind _ _ p => p.refersBack
  | .empty => false
  | .start => false
  | .finish => false
  | .char _ => false
  | .oneOf _ => false

/-- The pattern leads somewhere from some position of the text. -/
def Pattern.finds (p : Pattern) (text : Text) : Bool :=
  if p.refersBack then (List.range (text.length + 1)).any fun pos => !(p.run text ⟨pos, []⟩).isEmpty
  else (p.starts text (.all text)).any id

end ProxyRouting.Regex
