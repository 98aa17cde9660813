import ProxyRouting.Proofs.Ip.AddressText
import ProxyRouting.Text.Blank

/-!
The characters of addresses. The readers of an address take digits, colons and dots off the front of a text and
nothing else, so whatever spells an address, canonically or not, consists of those (`isAddressChar_of_ofText?`): it
has no white space, no bracket and no slash.
-/
namespace ProxyRouting.Ip
open Text

/-- A character that the text of an address may have. -/
def isAddressChar (c : Char) : Bool := (hexValue? c).isSome || c == ':' || c == '.'

theorem isAddressChar_of_isDigit {c : Char} (digit : c.isDigit = true) : isAddressChar c = true := by
  simp [isAddressChar, hexValue?, digit]

/-- What stands in front of a rest of the text are characters of addresses. -/
def Consumes (t rest : Text) : Prop := ∃ front, t = front ++ rest ∧ ∀ c ∈ front, isAddressChar c = true

theorem Consumes.refl (t : Text) : Consumes t t := ⟨[], rfl, List.forall_mem_nil _⟩

theorem Consumes.trans {t u v : Text} (first : Consumes t u) (second : Consumes u v) : Consumes t v := by
  obtain ⟨front, rfl, known⟩ := first
  obtain ⟨behind, rfl, known'⟩ := second
  exact ⟨front ++ behind, (List.append_assoc ..).symm, List.forall_mem_append.2 ⟨known, known'⟩⟩

theorem Consumes.suffix {t rest : Text} (way : Consumes t rest) : rest <:+ t := by
  obtain ⟨front, rfl, _⟩ := way
  exact List.suffix_append front rest

theorem Consumes.whole {t : Text} (way : Consumes t []) : ∀ c ∈ t, isAddressChar c = true := by
  obtain ⟨front, rfl, known⟩ := way
  rwa [List.append_nil]

theorem consumes_cons {c : Char} (known : isAddressChar c = true) (t : Text) : Consumes (c :: t) t :=
  ⟨[c], rfl, List.forall_mem_singleton.2 known⟩

theorem readOctet?_consumes {t rest : Text} {n : Nat} (read : readOctet? t = some (n, rest)) : Consumes t rest := by
  unfold readOctet? at read
  simp only at read
  split at read
  · cases read
  · cases read
    exact ⟨t.takeWhile Char.isDigit, List.takeWhile_append_dropWhile.symm,
      fun c member => isAddressChar_of_isDigit (List.mem_takeWhile_imp member)⟩

theorem readDotOctet?_consumes {t rest : Text} {n : Nat} (read : readDotOctet? t = some (n, rest)) : Consumes t rest := by
  unfold readDotOctet? at read
  split at read
  · exact (consumes_cons (by decide) _).trans (readOctet?_consumes read)
  · cases read

theorem readDotted?_consumes {t rest : Text} {n : Nat} (read : readDotted? t = some (n, rest)) : Consumes t rest := by
  simp only [readDotted?, bind, Option.bind_eq_some_iff] at read
  obtain ⟨⟨a, t₁⟩, first, ⟨b, t₂⟩, second, ⟨c, t₃⟩, third, ⟨d, t₄⟩, fourth, whole⟩ := read
  obtain ⟨_, rfl⟩ := Prod.mk.inj (Option.some.inj whole)
  exact (((readOctet?_consumes first).trans (readDotOctet?_consumes second)).trans
    (readDotOctet?_consumes third)).trans (readDotOctet?_consumes fourth)

theorem readGroup?_consumes {t rest : Text} {g : Nat} (read : readGroup? t = some (g, rest)) : Consumes t rest := by
  unfold readGroup? at read
  simp only at read
  split at read
  · cases read
  · cases read
    let isHex (c : Char) : Bool := (hexValue? c).isSome
    refine ⟨t.takeWhile isHex, (List.prefix_iff_eq_append.1 (List.takeWhile_prefix isHex)).symm, fun c member => ?_⟩
    have digit : isHex c = true := List.mem_takeWhile_imp member
    exact Bool.or_eq_true_iff.2 (.inl (Bool.or_eq_true_iff.2 (.inl digit)))

theorem skipColon?_consumes {isFirst : Bool} {t u : Text} (behind : skipColon? isFirst t = some u) : Consumes t u := by
  unfold skipColon? at behind
  split at behind
  · cases behind
    exact .refl t
  · split at behind
    · cases behind
      exact consumes_cons (by decide) _
    · cases behind

theorem readGroups_consumes (room : Nat) (isFirst : Bool) (t : Text) : Consumes t (readGroups room isFirst t).2.2 := by
  induction room generalizing isFirst t with
  | zero => exact .refl t
  | succ room ih =>
    rw [readGroups]
    split
    · exact .refl t
    · next u behind =>
      have colon := skipColon?_consumes behind
      split
      · next n rest dotted =>
        split at dotted
        · exact colon.trans (readDotted?_consumes dotted)
        · cases dotted
      · split
        · exact .refl t
        · next g rest read => exact (colon.trans (readGroup?_consumes read)).trans (ih false rest)

theorem readV6?_consumes {t rest : Text} {n : Nat} (read : readV6? t = some (n, rest)) : Consumes t rest := by
  have way := readGroups_consumes 8 true t
  unfold readV6? at read
  split at read
  next head dotted behind groups =>
  rw [groups] at way
  split at read
  · cases read
    exact way
  · split at read
    · cases read
    · split at read
      · next gap =>
        have way' := readGroups_consumes (7 - head.length) true gap
        split at read
        next groups' =>
        cases read
        rw [groups'] at way'
        have colon : isAddressChar ':' = true := by decide
        exact way.trans ((consumes_cons colon _).trans ((consumes_cons colon gap).trans way'))
      · cases read

/-- A text that spells an address, canonically or not, has no other characters than those of addresses. -/
theorem isAddressChar_of_ofText? {t : Text} {a : Address} (read : Address.ofText? t = some a) :
    ∀ c ∈ t, isAddressChar c = true := by
  unfold Address.ofText? at read
  split at read
  · next dotted => exact (readDotted?_consumes dotted).whole
  · split at read
    · next groups => exact (readV6?_consumes groups).whole
    · cases read

theorem toNat_of_isDigit {c : Char} (digit : c.isDigit = true) : 48 ≤ c.toNat ∧ c.toNat ≤ 57 := by
  simpa [Char.isDigit, UInt32.le_iff_toNat_le] using digit

theorem toNat_of_hexValue? {c : Char} (digit : (hexValue? c).isSome = true) : 48 ≤ c.toNat ∧ c.toNat ≤ 102 := by
  unfold hexValue? at digit
  split at digit
  · next decimal =>
    have := toNat_of_isDigit decimal
    omega
  · split at digit
    · next letter =>
      simp [Char.le_def, UInt32.le_iff_toNat_le] at letter
      omega
    · split at digit
      · next letter =>
        simp [Char.le_def, UInt32.le_iff_toNat_le] at letter
        omega
      · cases digit

theorem isBlank_of_isAddressChar {c : Char} (inside : isAddressChar c = true) : isBlank c = false := by
  have bounds : 46 ≤ c.toNat ∧ c.toNat ≤ 102 := by
    simp only [isAddressChar, Bool.or_eq_true, beq_iff_eq] at inside
    rcases inside with (digit | rfl) | rfl
    · have := toNat_of_hexValue? digit
      omega
    · decide
    · decide
  simp [isBlank]
  omega

section
variable {t : Text} {a : Address} (spelled : Address.ofText? t = some a)
include spelled

theorem notMem_of_spelled {c : Char} (foreign : isAddressChar c = false) : c ∉ t := fun member => by
  rw [isAddressChar_of_ofText? spelled c member] at foreign
  cases foreign

theorem isBlank_of_spelled : ∀ c ∈ t, isBlank c = false :=
  fun c member => isBlank_of_isAddressChar (isAddressChar_of_ofText? spelled c member)

end

theorem isAddressChar_toText (a : Address) : ∀ c ∈ a.toText, isAddressChar c = true :=
  isAddressChar_of_ofText? (ofText?_toText a)

theorem notMem_toText {c : Char} (foreign : isAddressChar c = false) (a : Address) : c ∉ a.toText :=
  notMem_of_spelled (ofText?_toText a) foreign

theorem toText_ne_nil (a : Address) : a.toText ≠ [] := by
  intro empty
  have read := ofText?_toText a
  rw [empty] at read
  cases read

end ProxyRouting.Ip
