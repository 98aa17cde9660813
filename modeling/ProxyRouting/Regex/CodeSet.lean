import ProxyRouting.Text.Basic

/-!
Sets of code points as lists of ranges, in any order and with any overlaps. `normalize` gives a set
its only ascending form whose ranges do not touch, `complement` the rest of the code points, and
`scalars` what of a set is left of characters, surrogates being none.
-/
namespace ProxyRouting.Regex

/-- The code points from `low` to `high`, both included. -/
structure CodeRange where
  low : Nat
  high : Nat
  deriving DecidableEq, Repr

/-- A set of code points: the union of its ranges. -/
abbrev CodeSet := List CodeRange

/-- The characters from `first` to `last`, both included. -/
structure CharRange where
  first : Char
  last : Char
  deriving DecidableEq, Repr

/-- The character lies in the range. -/
def CharRange.contains (r : CharRange) (c : Char) : Bool := r.first ≤ c && c ≤ r.last

namespace CodeSet

/-- The largest code point. -/
def maxCode : Nat := 0x10FFFF

/-- The code point lies in one of the ranges. -/
def contains (set : CodeSet) (n : Nat) : Bool := set.any fun r => r.low ≤ n && n ≤ r.high

/-- Inserts a range before the first one that does not start below it. -/
def insert (r : CodeRange) : CodeSet → CodeSet
  | [] => [r]
  | s :: rest => if r.low ≤ s.low then r :: s :: rest else s :: insert r rest

/-- The ranges in the order of their low ends. -/
def sort (set : CodeSet) : CodeSet := set.foldr insert []

/-- Joins ascending ranges to `current` as long as they overlap or touch it. -/
def joinFrom (current : CodeRange) : CodeSet → CodeSet
  | [] => [current]
  | r :: rest =>
    if r.low ≤ current.high + 1 then joinFrom ⟨current.low, max current.high r.high⟩ rest
    else current :: joinFrom r rest

/-- The same set in ascending ranges with a gap between any two of them. -/
def normalize (set : CodeSet) : CodeSet :=
  match sort set with
  | [] => []
  | r :: rest => joinFrom r rest

/-- What ascending ranges leave out from `next` on. -/
def gapsFrom (next : Nat) : CodeSet → CodeSet
  | [] => if next ≤ maxCode then [⟨next, maxCode⟩] else []
  | r :: rest =>
    if next < r.low then ⟨next, r.low - 1⟩ :: gapsFrom (r.high + 1) rest else gapsFrom (r.high + 1) rest

/-- The code points outside the set, ascending. -/
def complement (set : CodeSet) : CodeSet := gapsFrom 0 (normalize set)

/-- The code point is half of a UTF-16 pair and so no character. -/
def isSurrogate (n : Nat) : Bool := 0xD800 ≤ n && n ≤ 0xDFFF

/-- The characters of a range: an end among the surrogates moves inwards past them. -/
def clip? (r : CodeRange) : Option CharRange :=
  let low := if isSurrogate r.low then 0xE000 else r.low
  let high := if isSurrogate r.high then 0xD7FF else r.high
  if low ≤ high ∧ high ≤ maxCode then some ⟨Char.ofNat low, Char.ofNat high⟩ else none

/-- The characters of a set. -/
def scalars (set : CodeSet) : List CharRange := set.filterMap clip?

/-- ASCII digits. -/
def digits : CodeSet := [⟨0x30, 0x39⟩]

/-- ASCII letters, digits and the underscore. -/
def wordChars : CodeSet := [⟨0x30, 0x39⟩, ⟨0x41, 0x5A⟩, ⟨0x5F, 0x5F⟩, ⟨0x61, 0x7A⟩]

/-- White space and line terminators of the script language. -/
def spaces : CodeSet :=
  [⟨0x09, 0x0D⟩, ⟨0x20, 0x20⟩, ⟨0xA0, 0xA0⟩, ⟨0x1680, 0x1680⟩, ⟨0x2000, 0x200A⟩, ⟨0x2028, 0x2029⟩,
    ⟨0x202F, 0x202F⟩, ⟨0x205F, 0x205F⟩, ⟨0x3000, 0x3000⟩, ⟨0xFEFF, 0xFEFF⟩]

/-- The characters that end a line of a script. -/
def lineTerminators : CodeSet := [⟨0x0A, 0x0A⟩, ⟨0x0D, 0x0D⟩, ⟨0x2028, 0x2029⟩]

/-- The set a backslash and this letter stand for. -/
def ofEscape? : Char → Option CodeSet
  | 'd' => some digits
  | 'D' => some (complement digits)
  | 'w' => some wordChars
  | 'W' => some (complement wordChars)
  | 's' => some spaces
  | 'S' => some (complement spaces)
  | _ => none

end CodeSet
end ProxyRouting.Regex
