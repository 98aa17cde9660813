import ProxyRouting.Regex.Script
import ProxyRouting.Regex.Starts

/-!
Patterns from tokens, read once from left to right with the open groups on a stack. The engine refuses
what it cannot run: a quantifier with nothing to repeat, references to groups it has not met, numbers
next to names, lookbehinds of no fixed width, and groups nested too deep.
-/
namespace ProxyRouting.Regex

/-- What kind of thing a quantifier would repeat. -/
inductive Shape
  | nothing
  | assertion
  | atom
  deriving DecidableEq, Repr

/-- One item of a sequence; the alternatives of a plain group remain visible. -/
structure Piece where
  pattern : Pattern
  shape : Shape
  alternatives : List Pattern

/-- An item that can be repeated. -/
def Piece.atom (p : Pattern) : Piece := ⟨p, .atom, [p]⟩

/-- An item that only tests a place. -/
def Piece.assertion (p : Pattern) : Piece := ⟨p, .assertion, [p]⟩

/-- The items in order, the last one first in the list. -/
def sequence : List Piece → Pattern
  | [] => .empty
  | [p] => p.pattern
  | p :: before => .seq (sequence before) p.pattern

/-- The first of the alternatives that leads anywhere. -/
def choice : List Pattern → Pattern
  | [] => .empty
  | [p] => p
  | p :: ps => .alt p (choice ps)

/-- A group that is still open: its kind, its number, and its alternatives, the last one first. -/
structure Frame where
  group : Group
  index : Nat
  before : List (List Piece)
  pieces : List Piece

/-- The state of reading: the innermost group, those around it, and what has been met so far. -/
structure Builder where
  frame : Frame
  outer : List Frame
  groups : Nat
  names : List (Text × Nat)
  used : List Nat
  numbered : Bool

/-- How deep groups may be nested, less one. -/
def maxNesting : Nat := 63

/-- The ASCII word characters. -/
def wordRanges : List CharRange := CodeSet.scalars CodeSet.wordChars

/-- A word character on one side only, or, inverted, on both sides or none. -/
def boundary (inverted : Bool) : Pattern :=
  let word := Pattern.oneOf wordRanges
  .alt (.seq (.behind false 1 word) (.look (!inverted) word)) (.seq (.behind true 1 word) (.look inverted word))

/-- The least and the most rounds of a quantifier; a count is a 64-bit number. -/
def Quantifier.bounds? : Quantifier → Option (Nat × Option Nat)
  | .star => some (0, none)
  | .plus => some (1, none)
  | .optional => some (0, some 1)
  | .exactly n => (count? n).map fun n => (n, some n)
  | .atLeast n => (count? n).map fun n => (n, none)
  | .between n m => (count? n).bind fun n => (count? m).map fun m => (n, some m)
where
  count? (digits : Text) : Option Nat :=
    let n := Text.digitsValue digits
    if n < 2 ^ 64 then some n else none

/-- The items of a spelling read as plain characters, the last one optional if a lazy mark follows. -/
def literalPieces (spelling : Text) (isLazy : Bool) : List Piece :=
  match spelling.reverse.map fun c => Piece.atom (.char c) with
  | [] => []
  | last :: before => (if isLazy then Piece.atom (.loop last.pattern 0 (some 1) true) else last) :: before

/-- The items after a quantifier. Braces with nothing before them stand for themselves. -/
def quantify (q : Quantifier) (isLazy : Bool) (pieces : List Piece) : Option (List Piece) :=
  let isBraces := match q with
    | .star | .plus | .optional => false
    | _ => true
  match q.bounds?, pieces with
  | none, pieces => some (literalPieces q.render isLazy ++ pieces)
  | some _, [] => if isBraces then some (literalPieces q.render isLazy) else none
  | some (least, most), p :: before =>
    if p.shape = .atom ∧ most.all (least ≤ ·) then some (.atom (.loop p.pattern least most (!isLazy)) :: before)
    else none

/-- A lookbehind of fixed width, or of alternatives that have one each. -/
def lookBehind? (negated : Bool) (alternatives : List Pattern) : Option Pattern := do
  let widths ← alternatives.mapM Pattern.width?
  match widths with
  | [] => none
  | width :: rest =>
    if rest.all (· = width) then some (.behind negated width (choice alternatives))
    else
      let each := (widths.zip alternatives).map fun (width, p) => Pattern.behind negated width p
      some (if negated then each.foldl .seq .empty else choice each)

/-- The item a closed group becomes. A plain group of one item is that item. -/
def Frame.close? (f : Frame) : Option Piece :=
  let alternatives := (f.pieces :: f.before).reverse.map fun pieces => pieces.filter fun p => p.shape ≠ .nothing
  let patterns := alternatives.map sequence
  let piece : Piece := match alternatives with
    | [[]] => ⟨.empty, .nothing, [.empty]⟩
    | [[p]] => p
    | _ => ⟨choice patterns, .atom, patterns⟩
  match f.group with
  | .plain => some piece
  | .capture | .named _ => some (.atom (.group f.index piece.pattern))
  | .ahead => some (.assertion (.look false piece.pattern))
  | .notAhead => some (.assertion (.look true piece.pattern))
  | .behind => (lookBehind? false piece.alternatives).map .assertion
  | .notBehind => (lookBehind? true piece.alternatives).map .assertion

namespace Builder

/-- Nothing read yet. -/
def initial : Builder := ⟨⟨.plain, 0, [], []⟩, [], 0, [], [], false⟩

/-- One more item in the innermost group. -/
def push (b : Builder) (p : Piece) : Builder := { b with frame := { b.frame with pieces := p :: b.frame.pieces } }

/-- Opens a group, numbering it if it captures. -/
def openGroup (b : Builder) (group : Group) : Builder :=
  let opened (index : Nat) : Builder := { b with frame := ⟨group, index, [], []⟩, outer := b.frame :: b.outer }
  match group with
  | .capture => { opened (b.groups + 1) with groups := b.groups + 1 }
  | .named name => { opened (b.groups + 1) with groups := b.groups + 1, names := (name, b.groups + 1) :: b.names }
  | _ => opened 0

/-- Reads one token. -/
def step (b : Builder) : Token → Option Builder
  | .start => some (b.push (.assertion .start))
  | .finish => some (b.push (.assertion .finish))
  | .bar => some { b with frame := { b.frame with before := b.frame.pieces :: b.frame.before, pieces := [] } }
  | .plain c => some (b.push (.atom (.char c)))
  | .escaped c => some (b.push (.atom (.char c)))
  | .code c => some (b.push (.atom (.char c)))
  | .oneOf ranges => some (b.push (.atom (.oneOf ranges)))
  | .boundary inverted =>
    if b.outer.length + 2 ≤ maxNesting then some (b.push (.atom (Regex.boundary inverted))) else none
  | .backref n =>
    if n ≤ b.groups ∧ b.outer.length + 1 ≤ maxNesting then
      some { b.push (.atom (.backref n)) with used := n :: b.used, numbered := true }
    else none
  | .namedBackref name =>
    (b.names.lookup name).map fun n => { b.push (.atom (.backref n)) with used := n :: b.used }
  | .opening group => if b.outer.length + 1 ≤ maxNesting then some (b.openGroup group) else none
  | .closing =>
    match b.outer with
    | [] => none
    | f :: outer => b.frame.close?.map fun p => { b with frame := { f with pieces := p :: f.pieces }, outer }
  | .quantifier q isLazy =>
    (quantify q isLazy b.frame.pieces).map fun pieces => { b with frame := { b.frame with pieces } }

/-- The whole pattern, once all groups are closed. -/
def finish? (b : Builder) : Option Pattern :=
  if b.outer.isEmpty ∧ ¬ (b.numbered ∧ b.names ≠ []) then b.frame.close?.map fun p => p.pattern.keepGroups b.used
  else none

end Builder

/-- The pattern of a token list, unless the engine refuses it. -/
def Pattern.ofTokens? (tokens : List Token) : Option Pattern :=
  (tokens.foldlM Builder.step .initial).bind Builder.finish?

/-- Why a source gives no pattern: a fault of its own, or the engine cannot run it. -/
inductive Refusal
  | fault (f : Fault)
  | engine
  deriving DecidableEq, Repr

/-- The pattern of a script source. -/
def compile (source : Text) : Except Refusal Pattern :=
  match tokenize source with
  | .error fault => .error (.fault fault)
  | .ok tokens =>
    match Pattern.ofTokens? tokens with
    | some p => .ok p
    | none => .error .engine

end ProxyRouting.Regex
