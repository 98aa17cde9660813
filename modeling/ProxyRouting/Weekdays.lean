import ProxyRouting.Text.Units

/-!
Sets of days of the week, Sunday being 0. A mask has one unit for each day and selects it by a letter;
a range selects the days between its ends.
-/
-- Sums begin at the zero of the language itself, whatever else is imported.
attribute [local instance (10000)] Zero.ofOfNat0

namespace ProxyRouting

/-- A set of days. -/
structure Weekdays where
  isOn : Fin 7 → Bool

namespace Weekdays

/-- The day with a number belongs to the set. -/
def contains (w : Weekdays) (day : Nat) : Bool := if h : day < 7 then w.isOn ⟨day, h⟩ else false

/-- The set as a number, a bit for each day. -/
def bits (w : Weekdays) : Nat := ((List.finRange 7).map fun day => if w.isOn day then 2 ^ day.val else 0).sum

/-- A unit of a mask that selects its day: letters do, a dash does not. -/
def selects (unit : Nat) : Bool := 64 < unit

/-- The days that a mask selects, each by the unit at its place. -/
def ofMask (mask : Text) : Weekdays := ⟨fun day => (Text.units mask)[day.val]?.any selects⟩

/-- The days from the first to the last. -/
def ofRange (first last : Nat) : Weekdays := ⟨fun day => first ≤ day.val && day.val ≤ last⟩

end Weekdays
end ProxyRouting
