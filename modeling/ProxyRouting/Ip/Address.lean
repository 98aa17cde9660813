import ProxyRouting.Text.Digits

/-!
IPv4 and IPv6 addresses and their text. IPv6 is written in lower case with the longest run of zero
groups, the first of equals and never a single one, as `::`; only an IPv4 address mapped into IPv6
keeps its dotted form.
-/
namespace ProxyRouting.Ip

/-- An address of either family. -/
inductive Address
  | v4 (bits : BitVec 32)
  | v6 (bits : BitVec 128)
  deriving DecidableEq, Repr

namespace Address

/-- The number of bits of the family. -/
def width : Address → Nat
  | .v4 _ => 32
  | .v6 _ => 128

/-- The bits as a number. -/
def value : Address → Nat
  | .v4 bits => bits.toNat
  | .v6 bits => bits.toNat

/-- The address belongs to IPv4. -/
def isV4 : Address → Bool
  | .v4 _ => true
  | .v6 _ => false

end Address

/-- The four bytes of an IPv4 address, the highest first. -/
def octets (n : Nat) : List Nat := [n / 2 ^ 24 % 256, n / 2 ^ 16 % 256, n / 2 ^ 8 % 256, n % 256]

/-- The eight groups of an IPv6 address, the highest first. -/
def groups (n : Nat) : List Nat := (List.range 8).map fun i => n / 2 ^ (16 * (7 - i)) % 2 ^ 16

/-- Four numbers with dots between them. -/
def dottedText (n : Nat) : Text := Text.join ['.'] ((octets n).map Text.ofNat)

/-- Groups with colons between them. -/
def groupsText (gs : List Nat) : Text := Text.join [':'] (gs.map Text.hexLower)

/-- How many zeros a list starts with. -/
def leadingZeros (gs : List Nat) : Nat := (gs.takeWhile (· = 0)).length

/-- The start and the length of the longest run of zeros, the first of equals. -/
def longestZeros : List Nat → Nat × Nat
  | [] => (0, 0)
  | g :: gs =>
    let here := leadingZeros (g :: gs)
    let (start, length) := longestZeros gs
    if length ≤ here then (0, here) else (start + 1, length)

/-- The text of an IPv6 address. -/
def v6Text (n : Nat) : Text :=
  if n / 2 ^ 32 = 0xFFFF then "::ffff:".toList ++ dottedText (n % 2 ^ 32)
  else
    let gs := groups n
    let (start, length) := longestZeros gs
    if 1 < length then groupsText (gs.take start) ++ "::".toList ++ groupsText (gs.drop (start + length))
    else groupsText gs

/-- The canonical text of an address. -/
def Address.toText : Address → Text
  | .v4 bits => dottedText bits.toNat
  | .v6 bits => v6Text bits.toNat

/-- A decimal byte: one to three digits without a leading zero. -/
def readOctet? (t : Text) : Option (Nat × Text) :=
  let digits := t.takeWhile Char.isDigit
  let n := Text.digitsValue digits
  if digits = [] ∨ 3 < digits.length ∨ 255 < n ∨ (1 < digits.length ∧ digits.head? = some '0') then none
  else some (n, t.dropWhile Char.isDigit)

/-- A dot and a byte. -/
def readDotOctet? : Text → Option (Nat × Text)
  | '.' :: t => readOctet? t
  | _ => none

/-- A dotted IPv4 address at the front of a text. -/
def readDotted? (t : Text) : Option (Nat × Text) := do
  let (a, t) ← readOctet? t
  let (b, t) ← readDotOctet? t
  let (c, t) ← readDotOctet? t
  let (d, t) ← readDotOctet? t
  some (a * 2 ^ 24 + b * 2 ^ 16 + c * 2 ^ 8 + d, t)

/-- A group of one to four hexadecimal digits. -/
def readGroup? (t : Text) : Option (Nat × Text) :=
  let digits := t.takeWhile fun c => (Text.hexValue? c).isSome
  if digits = [] ∨ 4 < digits.length then none
  else some (digits.foldl (fun n c => n * 16 + (Text.hexValue? c).getD 0) 0, t.drop digits.length)

/-- The text behind the colon that separates a group from the one before it; the first has none. -/
def skipColon? (isFirst : Bool) (t : Text) : Option Text :=
  if isFirst then some t
  else
    match t with
    | ':' :: t => some t
    | _ => none

/-- At most `room` groups, the last two of which may be dotted, with the number of groups read and
    whether they end dotted. -/
def readGroups : Nat → Bool → Text → List Nat × Bool × Text
  | 0, _, t => ([], false, t)
  | room + 1, isFirst, t =>
    match skipColon? isFirst t with
    | none => ([], false, t)
    | some u =>
      match if 0 < room then readDotted? u else none with
      | some (n, rest) => ([n / 2 ^ 16, n % 2 ^ 16], true, rest)
      | none =>
        match readGroup? u with
        | none => ([], false, t)
        | some (g, rest) =>
          let (gs, dotted, rest) := readGroups room false rest
          (g :: gs, dotted, rest)

/-- Eight groups as one number. -/
def ofGroups (gs : List Nat) : Nat := gs.foldl (fun n g => n * 2 ^ 16 + g) 0

/-- An IPv6 address at the front of a text; `::` stands for at least one group of zeros. -/
def readV6? (t : Text) : Option (Nat × Text) :=
  match readGroups 8 true t with
  | (head, dotted, rest) =>
    if head.length = 8 then some (ofGroups head, rest)
    else if dotted then none
    else
      match rest with
      | ':' :: ':' :: rest =>
        match readGroups (7 - head.length) true rest with
        | (tail, _, rest) =>
          some (ofGroups (head ++ List.replicate (8 - head.length - tail.length) 0 ++ tail), rest)
      | _ => none

/-- The address a whole text spells. -/
def Address.ofText? (t : Text) : Option Address :=
  match readDotted? t with
  | some (n, []) => some (.v4 (BitVec.ofNat 32 n))
  | _ =>
    match readV6? t with
    | some (n, []) => some (.v6 (BitVec.ofNat 128 n))
    | _ => none

end ProxyRouting.Ip
