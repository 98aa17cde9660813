import ProxyRouting.Proofs.Condition.BypassText
import ProxyRouting.Proofs.Condition.FamilyLook

/-!
Networks in bypass lists. The fields of a network condition are read strictly, and the entry made of them leniently:
its scheme is looked for, its white space and its brackets are set aside, and its length is whatever number begins
there. For every spelling of an address both come to the same network, so entry and condition answer alike
(`networkEntry_agrees`).
-/
namespace ProxyRouting
open Text Ip

variable {address : Text} {length : UInt8} {n : Network}

/-- The address of a network condition is spelled by its field, perhaps in brackets, and its family has the length. -/
theorem spelled_of_ofFields (analyzed : Network.ofFields address length = .ok n) :
    n.length = length.toNat ∧
      ∃ bare, Address.ofText? bare = some n.address ∧ (address = bare ∨ address = '[' :: bare ++ [']']) := by
  obtain ⟨bare, read, around⟩ : ∃ bare, Network.ofFields address length =
      ((Address.ofText? bare).bind fun a => Network.of? a length.toNat).elim
        (.error (.invalidIp (subnetText bare length))) .ok ∧ (address = bare ∨ address = '[' :: bare ++ [']']) := by
    refine ⟨_, rfl, ?_⟩
    split
    · next rest =>
      cases closed : dropTail? [']'] rest with
      | none => exact .inl rfl
      | some inner => exact .inr (congrArg ('[' :: ·) (dropTail?_eq_some.1 closed))
    · exact .inl rfl
  rw [analyzed] at read
  cases found : (Address.ofText? bare).bind fun a => Network.of? a length.toNat with
  | none =>
    rw [found] at read
    cases read
  | some m =>
    rw [found] at read
    cases read
    obtain ⟨a, spelled, within⟩ := Option.bind_eq_some_iff.1 found
    obtain ⟨rfl, counted⟩ := of?_eq_some_iff.1 within
    exact ⟨counted, bare, spelled, around⟩

/-- The address of a network condition is named by its field wherever a name of an address may stand. -/
theorem named_of_ofFields (analyzed : Network.ofFields address length = .ok n) :
    Network.addressOfText? address = some n.address ∧ '/' ∉ address := by
  obtain ⟨-, bare, spelled, rfl | rfl⟩ := spelled_of_ofFields analyzed
  · exact ⟨addressOfText?_spelled spelled, notMem_of_spelled spelled (by decide)⟩
  · refine ⟨addressOfText?_enclosed spelled, ?_⟩
    simp [notMem_of_spelled spelled (by decide : isAddressChar '/' = false)]

theorem count_slash_subnetText (whole : '/' ∉ address) (length : UInt8) : (subnetText address length).count '/' = 1 := by
  have digits : '/' ∉ ofNat length.toNat := notMem_ofNat (by decide) length.toNat
  simp [subnetText, List.count_eq_zero_of_not_mem whole, List.count_eq_zero_of_not_mem digits]

/-- The entry made of the fields is the network of the condition, without a scheme. -/
theorem ofText_subnetText (analyzed : Network.ofFields address length = .ok n) :
    Bypass.ofText (subnetText address length) = ⟨none, some n, .any, none, none, n.toText⟩ := by
  obtain ⟨named, whole⟩ := named_of_ofFields analyzed
  have slash := count_slash_subnetText whole length
  have remote : subnetText address length ≠ Bypass.localText := by
    intro same
    rw [same] at slash
    cases slash
  -- the entry has one slash, and a separator two
  have schemeless : Bypass.splitScheme (subnetText address length) = (none, subnetText address length) := by
    rcases Bypass.splitScheme_cases (subnetText address length) with ⟨scheme, server, _, cut⟩ | ⟨split, _⟩
    · have slashes := congrArg (List.count '/') (cut?_eq cut)
      rw [slash] at slashes
      simp at slashes
      omega
    · exact split
  have network : Bypass.networkOfText? (subnetText address length) = some n :=
    (Bypass.networkOfText?_named named whole length.toNat_lt).trans
      (of?_eq_some_iff.2 ⟨rfl, (spelled_of_ofFields analyzed).1⟩)
  rw [Bypass.ofText_eq remote, schemeless]
  simp [Bypass.Server.ofText, network, Bypass.ofServer, Bypass.schemeText, Bypass.Server.toText]

/-- An entry of a bypass list that is made of the fields of a network condition is read as the network of the
    condition, whatever spells the address: it matches the same requests at the same times, has the same expression,
    and spelled anew it is the canonical text of the address with the length. -/
theorem networkEntry_agrees (analyzed : Network.ofFields address length = .ok n) :
    (∀ r now, (Condition.bypass (subnetText address length)).isMatch r now = .ok (n.containsHost r.host) ∧
        (Condition.ip address length).isMatch r now = .ok (n.containsHost r.host)) ∧
      (Condition.bypass (subnetText address length)).toExpr = .ok n.toExpr ∧
      (Condition.ip address length).toExpr = .ok n.toExpr ∧
      Network.addressOfText? address = some n.address ∧
      (Bypass.ofText (subnetText address length)).normalized = n.address.toText ++ '/' :: ofNat length.toNat := by
  have entry := ofText_subnetText analyzed
  have network : (Condition.ip address length).analyze = .ok (.ip n) := by rw [Condition.analyze, analyzed]; rfl
  have bypass : (Condition.bypass (subnetText address length)).analyze =
      .ok (.bypass (Bypass.ofText (subnetText address length))) := rfl
  have asks : (Analysis.bypass (Bypass.ofText (subnetText address length))).AsksOnly n := by
    rw [entry]
    exact .bypass rfl rfl
  obtain ⟨sameExpr, sameAnswer⟩ := eq_of_asksOnly bypass asks
  obtain ⟨named, -⟩ := named_of_ofFields analyzed
  refine ⟨fun r now => ⟨?_, ?_⟩, ?_, ?_, named, ?_⟩
  · rw [Condition.isMatch, bypass, Except.map, sameAnswer]
  · rw [Condition.isMatch, network]
    rfl
  · rw [Condition.toExpr, bypass, Except.map, sameExpr]
  · rw [Condition.toExpr, network]
    rfl
  · obtain ⟨counted, -⟩ := spelled_of_ofFields analyzed
    rw [entry, ← counted]
    rfl

/-- An address in brackets, in upper case and with zeros that its canonical text has not. -/
theorem networkEntry_agrees_respelled : ∃ n : Network, Network.ofFields "[FE80:0::0A]".toList 10 = .ok n ∧
    subnetText "[FE80:0::0A]".toList 10 = "[FE80:0::0A]/10".toList ∧
    (∀ r now, (Condition.bypass "[FE80:0::0A]/10".toList).isMatch r now = .ok (n.containsHost r.host) ∧
        (Condition.ip "[FE80:0::0A]".toList 10).isMatch r now = .ok (n.containsHost r.host)) ∧
      (Condition.bypass "[FE80:0::0A]/10".toList).toExpr = .ok n.toExpr ∧
      (Condition.ip "[FE80:0::0A]".toList 10).toExpr = .ok n.toExpr ∧
      (Bypass.ofText "[FE80:0::0A]/10".toList).normalized = "fe80::a/10".toList := by
  let n : Network := ⟨.v6 0xFE80000000000000000000000000000A, 10, by decide⟩
  have analyzed : Network.ofFields "[FE80:0::0A]".toList 10 = .ok n := by decide +kernel
  have text : subnetText "[FE80:0::0A]".toList 10 = "[FE80:0::0A]/10".toList := by decide +kernel
  have canonical : n.address.toText ++ '/' :: ofNat (10 : UInt8).toNat = "fe80::a/10".toList := by decide +kernel
  obtain ⟨answers, entryExpr, networkExpr, -, spelling⟩ := networkEntry_agrees analyzed
  rw [text] at answers entryExpr spelling
  exact ⟨n, analyzed, text, answers, entryExpr, networkExpr, spelling.trans canonical⟩

end ProxyRouting
