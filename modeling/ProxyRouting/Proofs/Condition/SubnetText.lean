import ProxyRouting.Condition.Subnet
import ProxyRouting.Proofs.Ip.NetworkText

/-!
The texts of networks. Addresses and networks are read back from their canonical text, in brackets or without; the
fields that a condition takes from any spelling of a network give that network again, and so does the text of the
fields (`network_texts_read_back`). Bits behind the length are kept all the way.
-/
namespace ProxyRouting
open Text Ip

/-- The text of the fields of a network is the text of the network. -/
theorem subnetText_network (n : Network) : subnetText n.address.toText (UInt8.ofNat n.length) = n.toText := by
  rw [subnetText, UInt8.toNat_ofNat_of_lt' (length_lt_of_network n)]
  rfl

/-- The fields of a network are understood as the network; no canonical text has a bracket to strip. -/
theorem ofFields_network (n : Network) : Network.ofFields n.address.toText (UInt8.ofNat n.length) = .ok n := by
  have unbracketed : '[' ∉ n.address.toText := notMem_toText (by decide) n.address
  unfold Network.ofFields
  split
  · next rest bracketed =>
    rw [bracketed] at unbracketed
    exact absurd (List.mem_cons_self ..) unbracketed
  · simp only [ofText?_toText, UInt8.toNat_ofNat_of_lt' (length_lt_of_network n), Option.bind_some, Network.of?,
      dif_pos n.length_le, Option.elim_some]

/-- Every spelling of a network gives the fields of its canonical text. -/
theorem ipOfText_of_read {t : Text} {n : Network} (read : Network.ofText? t = some n) :
    Condition.ipOfText t = .ip n.address.toText (UInt8.ofNat n.length) := by
  rw [Condition.ipOfText, read]

/-- A network is read back from its canonical text, with the address in brackets or without, and so is its address
    alone. The fields that a condition takes from any text for the network stand for it, and written as a text they
    are read as the network again. -/
theorem network_texts_read_back (n : Network) :
    Network.ofText? n.toText = some n ∧
      Network.ofText? ('[' :: n.address.toText ++ ']' :: '/' :: ofNat n.length) = some n ∧
      Network.addressOfText? n.address.toText = some n.address ∧
      Network.addressOfText? ('[' :: n.address.toText ++ [']']) = some n.address ∧
      ∀ t, Network.ofText? t = some n → ∃ address length, Condition.ipOfText t = .ip address length ∧
        Network.ofFields address length = .ok n ∧ Network.ofText? (subnetText address length) = some n := by
  refine ⟨network_ofText?_toText n, network_ofText?_brackets n, addressOfText?_toText n.address,
    addressOfText?_brackets n.address, ?_⟩
  intro t read
  refine ⟨_, _, ipOfText_of_read read, ofFields_network n, ?_⟩
  rw [subnetText_network, network_ofText?_toText]

/-- An address with bits behind the length, in a spelling that is not the canonical one. -/
theorem network_texts_read_back_respelled : ∃ n : Network, Network.ofText? " [FE80:0::00a]/+010 ".toList = some n ∧
    n.toText = "fe80::a/10".toList ∧
    ∃ address length, Condition.ipOfText " [FE80:0::00a]/+010 ".toList = .ip address length ∧
      Network.ofFields address length = .ok n ∧ Network.ofText? (subnetText address length) = some n := by
  let n : Network := ⟨.v6 0xFE80000000000000000000000000000A, 10, by decide⟩
  have read : Network.ofText? " [FE80:0::00a]/+010 ".toList = some n := by decide +kernel
  have canonical : n.toText = "fe80::a/10".toList := by decide +kernel
  obtain ⟨-, -, -, -, fields⟩ := network_texts_read_back n
  exact ⟨n, read, canonical, fields _ read⟩

end ProxyRouting
