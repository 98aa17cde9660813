import ProxyRouting.Regex.CodeSet
import ProxyRouting.Regex.Token

/-!
Ranges of code points held in 32-bit words, where a sum or a difference may not fit. Joining ranges and looking for the
gaps between them are loops over a sorted list; a step that would leave the words has no result.
-/
namespace ProxyRouting.Regex

/-- The code points from one word to another, both included. -/
@[ext]
structure WordRange where
  low : UInt32
  high : UInt32
  deriving DecidableEq, Repr

namespace WordRange

/-- The range of numbers. -/
def code (r : WordRange) : CodeRange := ⟨r.low.toNat, r.high.toNat⟩

/-- The set of numbers. -/
def codes (ranges : List WordRange) : CodeSet := ranges.map code

/-- Ranges in the order of their low ends, and then of their high ends. -/
def before (r s : WordRange) : Bool := r.low < s.low || (r.low == s.low && r.high ≤ s.high)

/-- The largest code point. -/
def maxWord : UInt32 := 0x10FFFF

/-- The next word, the last one having none. -/
def succ? (w : UInt32) : Option UInt32 := if w = 0xFFFFFFFF then none else some (w + 1)

/-- The word before, the first one having none. -/
def pred? (w : UInt32) : Option UInt32 := if w = 0 then none else some (w - 1)

/-- Joins a range to the last one or puts it behind; the last range stands first in the list. -/
def merge (merged : List WordRange) (r : WordRange) : List WordRange :=
  match merged with
  | last :: done =>
    if r.low ≤ (succ? last.high).getD last.high then ⟨last.low, max last.high r.high⟩ :: done else r :: last :: done
  | [] => [r]

/-- The same set in ascending ranges with a gap between any two of them. -/
def normalize (ranges : List WordRange) : List WordRange := ((ranges.mergeSort before).foldl merge []).reverse

/-- The gaps that have been found, and the word behind the last range. -/
structure Gaps where
  found : List WordRange
  next : UInt32

/-- Adds the gap before a range, if there is one. -/
def Gaps.step (g : Gaps) (r : WordRange) : Option Gaps := do
  let found ← if g.next < r.low then (pred? r.low).map fun stop => g.found ++ [⟨g.next, stop⟩] else some g.found
  let next ← succ? r.high
  return ⟨found, next⟩

/-- The code points outside the set, ascending. -/
def complement? (ranges : List WordRange) : Option (List WordRange) := do
  let g ← (normalize ranges).foldlM Gaps.step ⟨[], 0⟩
  return if g.next ≤ maxWord then g.found ++ [⟨g.next, maxWord⟩] else g.found

/-- The word is half of a UTF-16 pair. -/
def isSurrogate (w : UInt32) : Bool := 0xD800 ≤ w && w ≤ 0xDFFF

/-- The character with a number. -/
def char? (w : UInt32) : Option Char := if w.toNat.isValidChar then some (Char.ofNat w.toNat) else none

/-- Adds what of a range is left of characters to the text of a class. -/
def push (body : Text) (r : WordRange) : Text :=
  let low := if isSurrogate r.low then 0xDFFF + 1 else r.low
  let high := if isSurrogate r.high then 0xD800 - 1 else r.high
  match char? low, char? high with
  | some first, some last =>
    if last < first then body
    else if last ≠ first then body ++ renderCode first ++ '-' :: renderCode last
    else body ++ renderCode first
  | _, _ => body

/-- Adds the class of a set to a text. -/
def pushAll (out : Text) (ranges : List WordRange) : Text :=
  let body := ranges.foldl push []
  if body = [] then out ++ emptyClass else out ++ '[' :: body ++ [']']

end WordRange
end ProxyRouting.Regex
