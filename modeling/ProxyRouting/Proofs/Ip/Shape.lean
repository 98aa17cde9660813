import ProxyRouting.Proofs.Ip.NetworkText

/-!
How texts look that name an address. One that names an IPv4 address ends in a digit, unless white space or a
bracket follows (`ends_of_v4`); one that names an IPv6 address has a colon in it (`colon_of_v6`). None begins with a
star or a dot, or goes on behind a dotted address and a colon (`addressOfText?_append_none`).
-/
namespace ProxyRouting.Ip
open Text

/-- The last character of the text is of the kind. -/
def EndsIn (kind : Char → Bool) (t : Text) : Prop := ∃ c ∈ t.getLast?, kind c = true

theorem endsIn_of_suffix {kind : Char → Bool} {s t : Text} (suffix : s <:+ t) (ends : EndsIn kind s) : EndsIn kind t := by
  obtain ⟨front, rfl⟩ := suffix
  obtain ⟨c, last, good⟩ := ends
  exact ⟨c, by rw [List.getLast?_append, last]; rfl, good⟩

theorem endsIn_of_all {kind : Char → Bool} {t : Text} (some : t ≠ []) (all : ∀ c ∈ t, kind c = true) : EndsIn kind t :=
  ⟨t.getLast some, by rw [List.getLast?_eq_some_getLast some]; rfl, all _ (List.getLast_mem some)⟩

theorem endsIn_of_takeWhile {kind : Char → Bool} {t : Text} (some : t.takeWhile kind ≠ []) (whole : t.dropWhile kind = []) :
    EndsIn kind t := by
  have same : t.takeWhile kind = t := by
    have split := List.takeWhile_append_dropWhile (p := kind) (l := t)
    rwa [whole, List.append_nil] at split
  exact endsIn_of_all (same ▸ some) fun c member => List.mem_takeWhile_imp (same.symm ▸ member)

theorem endsIn_of_readOctet? {t : Text} {n : Nat} (read : readOctet? t = some (n, [])) : EndsIn Char.isDigit t := by
  unfold readOctet? at read
  simp only at read
  split at read
  · cases read
  · next digits =>
    have whole : t.dropWhile Char.isDigit = [] := (Prod.mk.inj (Option.some.inj read)).2
    exact endsIn_of_takeWhile (fun none => digits (.inl none)) whole

theorem endsIn_of_readDotted? {t : Text} {n : Nat} (read : readDotted? t = some (n, [])) : EndsIn Char.isDigit t := by
  simp only [readDotted?, bind, Option.bind_eq_some_iff] at read
  obtain ⟨⟨a, t₁⟩, first, ⟨b, t₂⟩, second, ⟨c, t₃⟩, third, ⟨d, t₄⟩, fourth, whole⟩ := read
  obtain ⟨_, rfl⟩ := Prod.mk.inj (Option.some.inj whole)
  have suffix : t₃ <:+ t :=
    (((readOctet?_consumes first).trans (readDotOctet?_consumes second)).trans (readDotOctet?_consumes third)).suffix
  refine endsIn_of_suffix suffix ?_
  unfold readDotOctet? at fourth
  split at fourth
  · next u same =>
    simp only at same
    exact same ▸ endsIn_of_suffix (List.suffix_cons '.' u) (endsIn_of_readOctet? fourth)
  · cases fourth

theorem endsIn_of_readByte? {t : Text} {n : Nat} (read : readByte? t = some n) : EndsIn Char.isDigit t := by
  have of {digits : Text} (good : digits ≠ [] ∧ digits.all Char.isDigit ∧ digitsValue digits < 256) :
      EndsIn Char.isDigit digits := endsIn_of_all good.1 (List.all_eq_true.1 good.2.1)
  unfold readByte? at read
  simp only at read
  split at read
  · next u =>
    split at read
    · next good => exact endsIn_of_suffix (List.suffix_cons '+' u) (of good)
    · cases read
  · split at read
    · next good => exact of good
    · cases read

theorem v4_of_ofText? {t : Text} {bits : BitVec 32} (named : Address.ofText? t = some (.v4 bits)) :
    EndsIn Char.isDigit t := by
  unfold Address.ofText? at named
  split at named
  · next dotted => exact endsIn_of_readDotted? dotted
  · split at named
    · cases named
    · cases named

/-- What names an address, whatever else stands around it. -/
theorem ofText?_of_addressOfText? {host : Text} {a : Address} (named : Network.addressOfText? host = some a) :
    ∃ address length, splitLength? (trim host) = some (address, length) ∧ Address.ofText? address = some a ∧
      ∀ t ∈ length, ∃ n, readByte? t = some n := by
  simp only [Network.addressOfText?, Network.ofText?, bind, Option.bind_eq_some_iff] at named
  obtain ⟨n, ⟨⟨address, length⟩, split, b, read, rest⟩, full⟩ := named
  have same : n.address = a := by
    split at full
    · exact Option.some.inj full
    · cases full
  refine ⟨address, length, split, ?_, ?_⟩
  · simp only at read
    rw [read, ← same]
    simp only at rest
    split at rest
    · cases rest
      rfl
    · obtain ⟨k, _, here⟩ := Option.bind_eq_some_iff.1 rest
      rw [(of?_eq_some_iff.1 here).1]
  · rintro t rfl
    simp only [Option.bind_eq_some_iff] at rest
    obtain ⟨k, byte, _⟩ := rest
    exact ⟨k, byte⟩

theorem splitLength?_eq {t address : Text} {length : Option Text} (unbracketed : '[' ∉ t)
    (split : splitLength? t = some (address, length)) : t = address ++ (length.map ('/' :: ·)).getD [] := by
  rw [splitLength?_of_plain fun head => unbracketed (List.mem_of_mem_head? head)] at split
  cases cut : cut? ['/'] t with
  | none =>
    rw [cut] at split
    cases split
    simp
  | some found =>
    rw [cut] at split
    cases split
    simpa using cut?_eq cut

/-- A text without brackets that names an IPv4 address ends in a digit or in white space. -/
theorem ends_of_v4 {host : Text} {bits : BitVec 32} (named : Network.addressOfText? host = some (.v4 bits))
    (unbracketed : '[' ∉ host) : EndsIn (fun c => c.isDigit || isBlank c) host := by
  obtain ⟨front, back, whole, _, blank⟩ := trim_append host
  obtain ⟨address, length, split, read, counted⟩ := ofText?_of_addressOfText? named
  have inside : '[' ∉ trim host := fun member => unbracketed (by rw [whole]; simp [member])
  have digits : EndsIn Char.isDigit (trim host) := by
    rw [splitLength?_eq inside split]
    cases length with
    | none => simpa using v4_of_ofText? read
    | some length =>
      obtain ⟨n, byte⟩ := counted length rfl
      exact endsIn_of_suffix ⟨address ++ ['/'], by simp⟩ (endsIn_of_readByte? byte)
  rw [whole]
  by_cases empty : back = []
  · subst empty
    obtain ⟨c, last, digit⟩ := digits
    exact endsIn_of_suffix ⟨front, by simp⟩ ⟨c, last, by simp [digit]⟩
  · exact endsIn_of_suffix (List.suffix_append _ back) (endsIn_of_all empty fun c member => by simp [blank c member])

theorem colon_of_skipColon? {t u : Text} (behind : skipColon? false t = some u) : ':' ∈ t := by
  unfold skipColon? at behind
  split at behind
  · next first => cases first
  · split at behind
    · exact List.mem_cons_self ..
    · cases behind

/-- A third group stands behind a colon, as all do that are not the first. -/
theorem colon_of_readGroups (room : Nat) (isFirst : Bool) (t : Text) (some : (readGroups room isFirst t).1 ≠ [])
    (late : isFirst = false ∨ 2 < (readGroups room isFirst t).1.length) : ':' ∈ t := by
  induction room generalizing isFirst t with
  | zero => exact absurd rfl some
  | succ room ih =>
    rw [readGroups] at some late
    split at some
    · exact absurd rfl some
    · next u behind =>
      rcases late with rfl | three
      · exact colon_of_skipColon? behind
      · simp only [behind] at three
        split at three
        · exact absurd three (Nat.lt_irrefl 2)
        · split at three
          · exact absurd three (Nat.not_lt_zero 2)
          · next g rest read =>
            have inside : Consumes t rest := (skipColon?_consumes behind).trans (readGroup?_consumes read)
            refine inside.suffix.subset (ih false rest ?_ (.inl rfl))
            rintro none
            simp [none] at three

theorem colon_of_readV6? {t rest : Text} {n : Nat} (read : readV6? t = some (n, rest)) : ':' ∈ t := by
  have way := readGroups_consumes 8 true t
  have colon := colon_of_readGroups 8 true t
  unfold readV6? at read
  split at read
  next head dotted rest' groups =>
  rw [groups] at way colon
  split at read
  · next full =>
    refine colon ?_ (.inr ?_)
    · rintro rfl
      cases full
    · rw [full]
      decide
  · split at read
    · cases read
    · split at read
      · exact way.suffix.subset (by simp)
      · cases read

theorem v6_of_ofText? {t : Text} {bits : BitVec 128} (named : Address.ofText? t = some (.v6 bits)) : ':' ∈ t := by
  unfold Address.ofText? at named
  split at named
  · cases named
  · split at named
    · next read => exact colon_of_readV6? read
    · cases named

theorem address_subset {t address : Text} {length : Option Text} (split : splitLength? t = some (address, length)) :
    address ⊆ t := by
  unfold splitLength? at split
  split at split
  · split at split
    · cases split
    · next cut => cases split; rw [cut?_eq cut]; simp
    · next cut => cases split; rw [cut?_eq cut]; simp
    · cases split
  · split at split
    · next cut => cases split; rw [cut?_eq cut]; simp
    · cases split; exact List.Subset.refl _

/-- A text that names an IPv6 address has a colon. -/
theorem colon_of_v6 {host : Text} {bits : BitVec 128} (named : Network.addressOfText? host = some (.v6 bits)) :
    ':' ∈ host := by
  obtain ⟨front, back, whole, _, _⟩ := trim_append host
  obtain ⟨address, length, split, read, _⟩ := ofText?_of_addressOfText? named
  have inside := address_subset split (v6_of_ofText? read)
  rw [whole]
  simp [inside]

/-- Where no address begins with a text, nothing that begins with it names one. -/
theorem addressOfText?_append_none {lead : Text} (trimmed : Trimmed lead) (present : lead ≠ [])
    (unbracketed : lead.head? ≠ some '[') (whole : '/' ∉ lead) (foreign : ∀ t, Address.ofText? (lead ++ t) = none)
    (t : Text) : Network.addressOfText? (lead ++ t) = none := by
  rw [Option.eq_none_iff_forall_ne_some]
  intro a named
  obtain ⟨address, length, split, read, _⟩ := ofText?_of_addressOfText? named
  have begins : ∃ t, address = lead ++ t := by
    have plain : (lead ++ trimEnd t).head? ≠ some '[' := by
      obtain ⟨c, rest, rfl⟩ := List.exists_cons_of_ne_nil present
      exact unbracketed
    rw [trim_append_of_trimmed trimmed present, splitLength?_of_plain plain, cut?_single_append whole] at split
    cases cut : cut? ['/'] (trimEnd t) with
    | none =>
      rw [cut] at split
      cases split
      exact ⟨_, rfl⟩
    | some found =>
      rw [cut] at split
      cases split
      exact ⟨_, rfl⟩
  obtain ⟨t', rfl⟩ := begins
  rw [foreign t'] at read
  cases read

theorem addressOfText?_star (t : Text) : Network.addressOfText? ('*' :: t) = none :=
  addressOfText?_append_none ⟨stops_cons (by decide) [], stops_cons (by decide) []⟩ (List.cons_ne_nil '*' [])
    (by decide) (by decide) (fun _ => rfl) t

theorem addressOfText?_dot (t : Text) : Network.addressOfText? ('.' :: t) = none :=
  addressOfText?_append_none ⟨stops_cons (by decide) [], stops_cons (by decide) []⟩ (List.cons_ne_nil '.' [])
    (by decide) (by decide) (fun _ => rfl) t

/-- The groups of an address do not go on behind dotted ones. -/
theorem ofText?_dotted_colon {n : Nat} (small : n < 2 ^ 32) (t : Text) :
    Address.ofText? (dottedText n ++ ':' :: t) = none := by
  have dotted := readDotted?_dottedText small (stops_cons (by decide : Char.isDigit ':' = false) t)
  have groups : readGroups 8 true (dottedText n ++ ':' :: t) = ([n / 2 ^ 16, n % 2 ^ 16], true, ':' :: t) := by
    rw [readGroups]
    simp only [skipColon?, if_true, if_pos (by decide : 0 < 7), dotted]
  have mixed : readV6? (dottedText n ++ ':' :: t) = none := by
    unfold readV6?
    rw [groups]
    rfl
  unfold Address.ofText?
  rw [dotted, mixed]

end ProxyRouting.Ip
