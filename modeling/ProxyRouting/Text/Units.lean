import ProxyRouting.Text.Basic

/-!
UTF-16 code units of a text, the positions by which script expressions index strings.
-/
namespace ProxyRouting

/-- The UTF-16 code units of a character: one below U+10000, else a high and a low surrogate. -/
def charUnits (c : Char) : List Nat :=
  let n := c.toNat
  if n < 0x10000 then [n] else [0xD800 + (n - 0x10000) / 0x400, 0xDC00 + (n - 0x10000) % 0x400]

namespace Text

/-- The UTF-16 code units of a text. -/
def units (t : Text) : List Nat := t.flatMap charUnits

/-- The length of a text in UTF-16 code units. -/
def unitLength (t : Text) : Nat := (units t).length

/-- The character a single unit reads as; a surrogate on its own reads as U+FFFD. -/
def ofUnit (unit : Nat) : Char :=
  if 0xD800 ≤ unit ∧ unit ≤ 0xDFFF then '\uFFFD' else Char.ofNat unit

/-- One list of units comes before another: at the first difference, or as its proper start. -/
def unitOrder : List Nat → List Nat → Ordering
  | [], [] => .eq
  | [], _ :: _ => .lt
  | _ :: _, [] => .gt
  | a :: as, b :: bs => if a < b then .lt else if b < a then .gt else unitOrder as bs

end Text
end ProxyRouting
