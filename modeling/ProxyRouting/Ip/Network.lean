import ProxyRouting.Ip.Address
import ProxyRouting.Text.Blank

/-!
Networks: an address with a prefix length that its family has. The bits behind the length are kept in
the text but do not count for membership, and the families never mix.
-/
namespace ProxyRouting.Ip

/-- An address and how many of its leading bits name the network. -/
structure Network where
  address : Address
  length : Nat
  length_le : length ≤ address.width
  deriving DecidableEq, Repr

namespace Network

/-- The network of an address, if the family has such a length. -/
def of? (address : Address) (length : Nat) : Option Network :=
  if h : length ≤ address.width then some ⟨address, length, h⟩ else none

/-- The network that holds only the address. -/
def single (address : Address) : Network := ⟨address, address.width, Nat.le_refl _⟩

/-- The prefix as an address: ones in front, zeros behind. -/
def mask (n : Network) : Address :=
  let bits := 2 ^ n.address.width - 2 ^ (n.address.width - n.length)
  match n.address with
  | .v4 _ => .v4 (BitVec.ofNat 32 bits)
  | .v6 _ => .v6 (BitVec.ofNat 128 bits)

/-- The address has the family and the leading bits of the network. -/
def contains (n : Network) (a : Address) : Bool :=
  a.isV4 == n.address.isV4 &&
    a.value / 2 ^ (n.address.width - n.length) == n.address.value / 2 ^ (n.address.width - n.length)

/-- The address, a slash and the length. -/
def toText (n : Network) : Text := n.address.toText ++ '/' :: Text.ofNat n.length

end Network

/-- The prefix length that a mask spells, if it is ones followed by zeros. -/
def maskLength? (mask : Address) : Option Nat :=
  (List.range (mask.width + 1)).find? fun length => 2 ^ mask.width - 2 ^ (mask.width - length) = mask.value

/-- A number below 256 with an optional plus sign and leading zeros. -/
def readByte? (t : Text) : Option Nat :=
  let digits := match t with
    | '+' :: t => t
    | t => t
  if digits ≠ [] ∧ digits.all Char.isDigit ∧ Text.digitsValue digits < 256 then some (Text.digitsValue digits)
  else none

/-- The address part of a text and, behind a slash, its length part; brackets may enclose the address. -/
def splitLength? (t : Text) : Option (Text × Option Text) :=
  match t with
  | '[' :: rest =>
    match Text.cut? [']'] rest with
    | none => none
    | some (address, []) => some (address, none)
    | some (address, '/' :: length) => some (address, some length)
    | some _ => none
  | t =>
    match Text.cut? ['/'] t with
    | some (address, length) => some (address, some length)
    | none => some (t, none)

/-- Reads an address or a network, white space around it aside. -/
def Network.ofText? (t : Text) : Option Network := do
  let (address, length) ← splitLength? (Text.trim t)
  let address ← Address.ofText? address
  match length with
  | none => some (single address)
  | some length => of? address (← readByte? length)

/-- Reads what names a single address: no length, or the full one. -/
def Network.addressOfText? (t : Text) : Option Address :=
  (Network.ofText? t).bind fun n => if n.length = n.address.width then some n.address else none

end ProxyRouting.Ip
