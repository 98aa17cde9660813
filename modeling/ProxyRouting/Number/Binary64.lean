/-!
Double precision numbers as exact values. The smallest positive double is 2⁻¹⁰⁷⁴, the quantum, and
every finite double is a whole number of quanta, so subtraction and comparison are integer arithmetic
followed by one rounding to 53 significant bits.
-/
-- Powers of numbers are the ones of the language itself, whatever else is imported.
attribute [instance (10000), default_instance 10000] instPowNat

namespace ProxyRouting

/-- A double. A finite one is a signed number of quanta, zero having both signs. -/
inductive Binary64
  | nan
  | infinite (negative : Bool)
  | finite (negative : Bool) (quanta : Nat)
  deriving DecidableEq, Repr, Inhabited

namespace Binary64

/-- The number one in quanta. -/
def one : Nat := 2 ^ 1074

/-- The least number of quanta that is too large for a double. -/
def limit : Nat := 2 ^ 2098

/-- The integer nearest to `num / den`, the even one of two. -/
def nearest (num den : Nat) : Nat :=
  let q := num / den
  let r := num % den
  if 2 * r < den then q else if den < 2 * r then q + 1 else q + q % 2

/-- `num / den` rounded to 53 significant bits. -/
def roundRatio (num den : Nat) : Nat :=
  let shift := (num / den).log2 - 52
  nearest num (den * 2 ^ shift) * 2 ^ shift

/-- The double nearest to `num / den` quanta. -/
def ofRatio (negative : Bool) (num den : Nat) : Binary64 :=
  let quanta := roundRatio num den
  if quanta < limit then .finite negative quanta else .infinite negative

/-- The double nearest to an integer. -/
def ofInt (n : Int) : Binary64 := ofRatio (n < 0) (n.natAbs * one) 1

/-- The double nearest to a natural number. -/
def ofNat (n : Nat) : Binary64 := ofRatio false (n * one) 1

/-- The quanta of a finite double with their sign. -/
def signed (negative : Bool) (quanta : Nat) : Int := if negative then -quanta else quanta

/-- The double nearest to a difference of quanta; an exact difference of zero is positive. -/
def ofDifference (d : Int) : Binary64 := ofRatio (d < 0) d.natAbs 1

/-- Subtraction. -/
def sub : Binary64 → Binary64 → Binary64
  | .nan, _ => .nan
  | _, .nan => .nan
  | .infinite s, .infinite t => if s = t then .nan else .infinite s
  | .infinite s, .finite _ _ => .infinite s
  | .finite _ _, .infinite t => .infinite (!t)
  | .finite s m, .finite t n =>
    if m = 0 ∧ n = 0 then .finite (s && !t) 0 else ofDifference (signed s m - signed t n)

/-- The order of two numbers, none with a NaN. -/
def compare? : Binary64 → Binary64 → Option Ordering
  | .nan, _ => none
  | _, .nan => none
  | .infinite s, .infinite t => some (if s = t then .eq else if s then .lt else .gt)
  | .infinite s, .finite _ _ => some (if s then .lt else .gt)
  | .finite _ _, .infinite t => some (if t then .gt else .lt)
  | .finite s m, .finite t n => some (compare (signed s m) (signed t n))

/-- Numeric equality: the zeros are equal, NaN equals nothing. -/
def equals (x y : Binary64) : Bool := compare? x y == some .eq

/-- Neither zero nor NaN. -/
def truthy : Binary64 → Bool
  | .nan => false
  | .infinite _ => true
  | .finite _ quanta => quanta != 0

/-- The integer a finite double without fraction stands for. -/
def toInt? : Binary64 → Option Int
  | .finite negative quanta => if quanta % one = 0 then some (signed negative (quanta / one)) else none
  | _ => none

/-- The natural number left when the fraction is dropped; none below zero and for what is not finite. -/
def truncate? : Binary64 → Option Nat
  | .finite negative quanta => if negative ∧ one ≤ quanta then none else some (quanta / one)
  | _ => none

/-- The double of a 64-bit pattern. -/
def ofBits (bits : Nat) : Binary64 :=
  let negative := bits / 2 ^ 63 % 2 = 1
  let exponent := bits / 2 ^ 52 % 2 ^ 11
  let fraction := bits % 2 ^ 52
  if exponent = 2047 then (if fraction = 0 then .infinite negative else .nan)
  else if exponent = 0 then .finite negative fraction
  else .finite negative ((2 ^ 52 + fraction) * 2 ^ (exponent - 1))

/-- The 64-bit pattern of a double. -/
def toBits : Binary64 → Nat
  | .nan => 0x7FF8000000000000
  | .infinite negative => (if negative then 2 ^ 63 else 0) + 2047 * 2 ^ 52
  | .finite negative quanta =>
    (if negative then 2 ^ 63 else 0) +
      (if quanta < 2 ^ 52 then quanta
       else
        let shift := quanta.log2 - 52
        (shift + 1) * 2 ^ 52 + (quanta / 2 ^ shift - 2 ^ 52))

end Binary64
end ProxyRouting
