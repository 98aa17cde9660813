import ProxyRouting.Text.Blank

/-!
Lower case. Only the ASCII letters change, and what they become are letters again, so lower case makes no separator
and no white space, and a text in lower case stays as it is.
-/
namespace ProxyRouting.Text

theorem isUpper_iff (c : Char) : c.isUpper = true ↔ 65 ≤ c.toNat ∧ c.toNat ≤ 90 := by
  unfold Char.isUpper
  simp [UInt32.le_iff_toNat_le]

theorem isLower_iff (c : Char) : c.isLower = true ↔ 97 ≤ c.toNat ∧ c.toNat ≤ 122 := by
  unfold Char.isLower
  simp [UInt32.le_iff_toNat_le]

/-- A letter in upper case moves by as much as the two cases are apart, and all else stays. -/
theorem toLower_cases (c : Char) :
    c.isUpper = true ∧ c.toLower.toNat = c.toNat + 32 ∨ c.isUpper = false ∧ c.toLower = c := by
  by_cases upper : c.isUpper = true
  · have bounds := (isUpper_iff c).1 upper
    have letter : c.val ≥ 'A'.val ∧ c.val ≤ 'Z'.val := of_decide_eq_true upper
    refine .inl ⟨upper, ?_⟩
    unfold Char.toLower
    rw [dif_pos letter]
    show (c.val + ('a'.val - 'A'.val)).toNat = _
    have shift : ('a'.val - 'A'.val).toNat = 32 := by decide
    rw [UInt32.toNat_add, shift, Char.toNat_val]
    omega
  · have other : ¬ (c.val ≥ 'A'.val ∧ c.val ≤ 'Z'.val) := fun letter => upper (decide_eq_true letter)
    exact .inr ⟨Bool.eq_false_iff.2 upper, dif_neg other⟩

theorem isUpper_toLower (c : Char) : c.toLower.isUpper = false := by
  rcases toLower_cases c with ⟨upper, moved⟩ | ⟨other, kept⟩
  · have bounds := (isUpper_iff c).1 upper
    refine Bool.eq_false_iff.2 fun again => ?_
    have bounds' := (isUpper_iff c.toLower).1 again
    omega
  · rwa [kept]

/-- Lower case adds nothing to a kind of characters that has no letters of that case. -/
theorem kind_toLower {kind : Char → Bool} (letterless : ∀ d, d.isLower = true → kind d = false) {c : Char}
    (other : kind c = false) : kind c.toLower = false := by
  rcases toLower_cases c with ⟨upper, moved⟩ | ⟨_, kept⟩
  · have bounds := (isUpper_iff c).1 upper
    exact letterless _ ((isLower_iff c.toLower).2 (by omega))
  · rwa [kept]

theorem kind_lower {kind : Char → Bool} (letterless : ∀ d, d.isLower = true → kind d = false) {t : Text}
    (other : ∀ c ∈ t, kind c = false) : ∀ c ∈ lower t, kind c = false := by
  intro c member
  obtain ⟨d, inside, rfl⟩ := List.mem_map.1 member
  exact kind_toLower letterless (other d inside)

/-- A character other than a letter of that case stands in a text in lower case only if it did before. -/
theorem notMem_lower {c : Char} (fixed : c.isLower = false) {t : Text} (absent : c ∉ t) : c ∉ lower t := by
  intro member
  obtain ⟨d, inside, same⟩ := List.mem_map.1 member
  rcases toLower_cases d with ⟨upper, moved⟩ | ⟨_, kept⟩
  · have bounds := (isUpper_iff d).1 upper
    have letter : c.isLower = true := (isLower_iff c).2 (by rw [← same]; omega)
    rw [letter] at fixed
    cases fixed
  · rw [kept] at same
    exact absent (same ▸ inside)

theorem isBlank_of_isLower (d : Char) (letter : d.isLower = true) : isBlank d = false := by
  have bounds := (isLower_iff d).1 letter
  simp [isBlank]
  omega

/-- White space has no case. -/
theorem lower_of_blank {t : Text} (blank : ∀ c ∈ t, isBlank c = true) : lower t = t := by
  refine (List.map_congr_left fun c member => ?_).trans (List.map_id t)
  rcases toLower_cases c with ⟨upper, _⟩ | ⟨_, kept⟩
  · have bounds := (isUpper_iff c).1 upper
    have white := blank c member
    simp [isBlank] at white
    omega
  · exact kept

theorem isUpper_of_mem_lower {c : Char} {t : Text} (member : c ∈ lower t) : c.isUpper = false := by
  obtain ⟨d, _, rfl⟩ := List.mem_map.1 member
  exact isUpper_toLower d

theorem lower_lower (t : Text) : lower (lower t) = lower t := by
  unfold lower
  rw [List.map_map]
  refine List.map_congr_left fun c _ => ?_
  rcases toLower_cases c.toLower with ⟨upper, _⟩ | ⟨_, kept⟩
  · rw [isUpper_toLower c] at upper
    cases upper
  · exact kept

theorem lower_eq_nil {t : Text} : lower t = [] ↔ t = [] := List.map_eq_nil_iff

end ProxyRouting.Text
