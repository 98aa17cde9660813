import ProxyRouting.Ip.Network
import ProxyRouting.Proofs.Ip.Characters

/-!
Networks are read back from their text (`network_ofText?_toText`), and so is the length of a network from its
mask (`maskLength?_mask`).
-/
namespace ProxyRouting.Ip
open Text

theorem of?_eq_some_iff {a : Address} {length : Nat} {n : Network} :
    Network.of? a length = some n ↔ a = n.address ∧ n.length = length := by
  unfold Network.of?
  split
  · next within =>
    rw [Option.some.injEq]
    constructor
    · rintro rfl
      exact ⟨rfl, rfl⟩
    · rintro ⟨rfl, rfl⟩
      rfl
  · next wide =>
    refine iff_of_false nofun ?_
    rintro ⟨rfl, rfl⟩
    exact wide n.length_le

theorem readByte?_ofNat {k : Nat} (byte : k < 256) : readByte? (ofNat k) = some k := by
  have unsigned (t : Text) : ofNat k ≠ '+' :: t := fun same => by
    have plus := isDigit_of_mem_ofNat (n := k) '+' (by rw [same]; simp)
    cases plus
  have digits : (ofNat k).all Char.isDigit = true := List.all_eq_true.2 isDigit_of_mem_ofNat
  unfold readByte?
  simp only
  rw [if_pos ⟨ofNat_ne_nil k, digits, by rwa [digitsValue_ofNat]⟩, digitsValue_ofNat]

theorem splitLength?_of_plain {t : Text} (unbracketed : t.head? ≠ some '[') :
    splitLength? t = some (((cut? ['/'] t).map fun (address, length) => (address, some length)).getD (t, none)) := by
  unfold splitLength?
  split
  · exact absurd rfl unbracketed
  · cases cut? ['/'] t <;> rfl

theorem isBlank_toText (a : Address) : ∀ c ∈ a.toText, isBlank c = false := isBlank_of_spelled (ofText?_toText a)

/-- A single address is read from whatever spells it. -/
theorem addressOfText?_spelled {t : Text} {a : Address} (spelled : Address.ofText? t = some a) :
    Network.addressOfText? t = some a := by
  have single : splitLength? t = some (t, none) := by
    have unbracketed : '[' ∉ t := notMem_of_spelled spelled (by decide)
    rw [splitLength?_of_plain fun head => unbracketed (List.mem_of_mem_head? head),
      cut?_none.2 (notMem_of_spelled spelled (by decide))]
    rfl
  have trimmed : trim t = t := trim_of_trimmed (trimmed_of_solid (isBlank_of_spelled spelled))
  simp [Network.addressOfText?, Network.ofText?, trimmed, single, spelled, Network.single]

theorem addressOfText?_toText (a : Address) : Network.addressOfText? a.toText = some a :=
  addressOfText?_spelled (ofText?_toText a)

theorem length_lt_of_network (n : Network) : n.length < 256 := by
  have bound := n.length_le
  cases address : n.address <;> simp [address, Address.width] at bound <;> omega

theorem trimmed_networkText (n : Network) : Trimmed n.toText :=
  trimmed_joined (isBlank_toText n.address) (by decide) fun c member =>
    isBlank_of_isAddressChar (isAddressChar_of_isDigit (isDigit_of_mem_ofNat c member))

/-- A network is read from its text. -/
theorem network_ofText?_toText (n : Network) : Network.ofText? n.toText = some n := by
  have split : splitLength? n.toText = some (n.address.toText, some (ofNat n.length)) := by
    have unbracketed : '[' ∉ n.toText := by
      have digits : '[' ∉ ofNat n.length := fun member => by cases isDigit_of_mem_ofNat '[' member
      simp [Network.toText, notMem_toText (by decide : isAddressChar '[' = false), digits]
    rw [splitLength?_of_plain fun head => unbracketed (List.mem_of_mem_head? head), Network.toText,
      cut?_single (notMem_toText (by decide) n.address)]
    rfl
  simp [Network.ofText?, trim_of_trimmed (trimmed_networkText n), split, ofText?_toText,
    readByte?_ofNat (length_lt_of_network n), Network.of?, n.length_le]

section
variable {t : Text} {a : Address} (spelled : Address.ofText? t = some a)
include spelled

/-- In brackets an address ends at the closing one. -/
theorem cut?_bracketed (behind : Text) : cut? [']'] (t ++ ']' :: behind) = some (t, behind) :=
  cut?_single (notMem_of_spelled spelled (by decide)) behind

/-- Brackets around an address and what is solid behind them leave nothing to trim. -/
theorem trim_bracketed {behind : Text} (solid : ∀ c ∈ behind, isBlank c = false) :
    trim ('[' :: t ++ ']' :: behind) = '[' :: t ++ ']' :: behind :=
  trim_of_trimmed
    (trimmed_joined (List.forall_mem_cons.2 ⟨by decide, isBlank_of_spelled spelled⟩) (by decide) solid)

/-- A single address is read in brackets, too. -/
theorem addressOfText?_enclosed : Network.addressOfText? ('[' :: t ++ [']']) = some a := by
  have single : splitLength? ('[' :: t ++ [']']) = some (t, none) := by
    simp only [List.cons_append, splitLength?, cut?_bracketed spelled]
  rw [Network.addressOfText?, Network.ofText?, trim_bracketed spelled (List.forall_mem_nil _), single]
  simp only [bind, Option.bind_some, spelled, Network.single, ↓reduceIte]

end

theorem addressOfText?_brackets (a : Address) : Network.addressOfText? ('[' :: a.toText ++ [']']) = some a :=
  addressOfText?_enclosed (ofText?_toText a)

/-- A network is read with its address in brackets, too. -/
theorem network_ofText?_brackets (n : Network) :
    Network.ofText? ('[' :: n.address.toText ++ ']' :: '/' :: ofNat n.length) = some n := by
  have split : splitLength? ('[' :: n.address.toText ++ ']' :: '/' :: ofNat n.length) =
      some (n.address.toText, some (ofNat n.length)) := by
    simp only [List.cons_append, splitLength?, cut?_bracketed (ofText?_toText n.address)]
  have solid : ∀ c ∈ '/' :: ofNat n.length, isBlank c = false := by
    intro c member
    rcases List.mem_cons.1 member with rfl | digit
    · decide
    · exact isBlank_of_isAddressChar (isAddressChar_of_isDigit (isDigit_of_mem_ofNat c digit))
  rw [Network.ofText?, trim_bracketed (ofText?_toText n.address) solid, split]
  simp only [bind, Option.bind_some, ofText?_toText, readByte?_ofNat (length_lt_of_network n), Network.of?,
    dif_pos n.length_le]

/-- The bits of a mask of a given length. -/
def maskBits (width length : Nat) : Nat := 2 ^ width - 2 ^ (width - length)

theorem maskBits_inj {width k l : Nat} (inside : k ≤ width) (inside' : l ≤ width)
    (same : maskBits width k = maskBits width l) : k = l := by
  have below (k : Nat) : 2 ^ (width - k) ≤ 2 ^ width := Nat.pow_le_pow_right (by decide) (Nat.sub_le width k)
  have powers : 2 ^ (width - k) = 2 ^ (width - l) := by
    have := below k
    have := below l
    unfold maskBits at same
    omega
  have exponents := Nat.pow_right_injective (by decide : 2 ≤ 2) powers
  omega

theorem value_mask (n : Network) : n.mask.value = maskBits n.address.width n.length ∧ n.mask.width = n.address.width := by
  have below (width length : Nat) : maskBits width length < 2 ^ width :=
    Nat.sub_lt (Nat.two_pow_pos width) (Nat.two_pow_pos (width - length))
  unfold Network.mask
  cases n.address with
  | v4 bits => exact ⟨Nat.mod_eq_of_lt (below 32 n.length), rfl⟩
  | v6 bits => exact ⟨Nat.mod_eq_of_lt (below 128 n.length), rfl⟩

/-- The length of a network is read from its mask. -/
theorem maskLength?_mask (n : Network) : maskLength? n.mask = some n.length := by
  obtain ⟨value, width⟩ := value_mask n
  rw [maskLength?, List.find?_range_eq_some]
  refine ⟨?_, List.mem_range.2 (by rw [width]; exact Nat.lt_succ_of_le n.length_le), fun k shorter => ?_⟩
  · rw [value, width]
    simp [maskBits]
  · rw [value, width]
    have apart : maskBits n.address.width k ≠ maskBits n.address.width n.length := fun same =>
      absurd (maskBits_inj (Nat.le_trans (Nat.le_of_lt shorter) n.length_le) n.length_le same) (Nat.ne_of_lt shorter)
    rw [Bool.not_eq_true', decide_eq_false_iff_not]
    exact apart

theorem isV4_mask (n : Network) : n.mask.isV4 = n.address.isV4 := by
  unfold Network.mask
  cases n.address <;> rfl

end ProxyRouting.Ip
