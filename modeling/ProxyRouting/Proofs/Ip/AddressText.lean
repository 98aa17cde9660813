import ProxyRouting.Ip.Address
import ProxyRouting.Proofs.Text.Cut

/-!
Addresses are read back from their text (`ofText?_toText`). The text of an IPv6 address leaves out its longest
run of zero groups, and what is left on both sides of it tells where the run was and how long.
-/
namespace ProxyRouting.Ip
open Text

theorem readOctet?_ofNat {k : Nat} (byte : k < 256) {rest : Text} (stops : Stops Char.isDigit rest) :
    readOctet? (ofNat k ++ rest) = some (k, rest) := by
  have short : (ofNat k).length ≤ 3 := length_ofNat_le (by omega : k < 10 ^ 3) (by decide)
  have lead : ¬ (1 < (ofNat k).length ∧ (ofNat k).head? = some '0') := fun ⟨long, zero⟩ => by
    have := length_of_head_ofNat zero
    omega
  simp only [readOctet?, takeWhile_run isDigit_of_mem_ofNat stops, dropWhile_run isDigit_of_mem_ofNat stops,
    digitsValue_ofNat, ofNat_ne_nil, lead, false_or, or_false]
  rw [if_neg (by omega)]

theorem dottedText_eq (n : Nat) : dottedText n = ofNat (n / 2 ^ 24 % 256) ++ '.' :: (ofNat (n / 2 ^ 16 % 256) ++
    '.' :: (ofNat (n / 2 ^ 8 % 256) ++ '.' :: ofNat (n % 256))) := by
  simp [dottedText, octets, join]

theorem readDotted?_dottedText {n : Nat} (small : n < 2 ^ 32) {rest : Text} (stops : Stops Char.isDigit rest) :
    readDotted? (dottedText n ++ rest) = some (n, rest) := by
  have dot (t : Text) : Stops Char.isDigit ('.' :: t) := stops_cons (by decide) t
  have byte (k : Nat) : k % 256 < 256 := Nat.mod_lt k (by decide)
  simp only [dottedText_eq, List.append_assoc, List.cons_append, readDotted?, readDotOctet?,
    readOctet?_ofNat (byte _) (dot _), readOctet?_ofNat (byte _) stops, bind, Option.bind, Option.some.injEq,
    Prod.mk.injEq, and_true]
  omega

theorem readDotted?_of_notMem {t : Text} (noDot : '.' ∉ t) : readDotted? t = none := by
  have kept {n : Nat} {rest : Text} (read : readOctet? t = some (n, rest)) : '.' ∉ rest := by
    unfold readOctet? at read
    simp only at read
    split at read
    · cases read
    · cases read
      exact fun member => noDot ((List.dropWhile_suffix _).subset member)
  unfold readDotted?
  cases read : readOctet? t with
  | none => rfl
  | some found =>
    obtain ⟨a, rest⟩ := found
    have stuck : readDotOctet? rest = none := by
      unfold readDotOctet?
      split
      · exact absurd (by simp) (kept read)
      · rfl
    simp [stuck]

theorem readGroup?_hexLower {g : Nat} (small : g < 2 ^ 16) {rest : Text}
    (stops : Stops (fun c => (hexValue? c).isSome) rest) : readGroup? (hexLower g ++ rest) = some (g, rest) := by
  have digits : ∀ c ∈ hexLower g, (hexValue? c).isSome = true := fun c member => by
    obtain ⟨d, digit, rfl⟩ := mem_hexLower c member
    rw [hexValue?_digitChar digit]
    rfl
  have short : (hexLower g).length ≤ 4 := length_hexLower_le (by omega : g < 16 ^ 4) (by decide)
  have value := hexValue_hexLower g
  simp only [hexValue] at value
  simp only [readGroup?, takeWhile_run digits stops, hexLower_ne_nil, false_or, value, List.drop_left]
  rw [if_neg (by omega)]

theorem dot_notMem_hexLower (g : Nat) : '.' ∉ hexLower g := by
  intro member
  obtain ⟨d, digit, same⟩ := mem_hexLower '.' member
  have each : ∀ d < 16, '.' ≠ Nat.digitChar d := by decide
  exact each d digit same

/-- Groups, each behind a colon. -/
def coloned (gs : List Nat) : Text := gs.flatMap fun g => ':' :: hexLower g

theorem groupsText_cons (g : Nat) (gs : List Nat) : groupsText (g :: gs) = hexLower g ++ coloned gs := by
  simp [groupsText, coloned, join_cons, List.flatMap_map]

/-- Where groups end: at the end of the text, or at a second colon. -/
def EndsGroups (rest : Text) : Prop := rest = [] ∨ ∃ t, rest = ':' :: ':' :: t

theorem dot_notMem_coloned (gs : List Nat) : '.' ∉ coloned gs := by
  simp [coloned, dot_notMem_hexLower]

theorem stops_coloned (gs : List Nat) {rest : Text} (ends : EndsGroups rest) :
    Stops (fun c => (hexValue? c).isSome) (coloned gs ++ rest) := by
  cases gs with
  | nil =>
    rcases ends with rfl | ⟨t, rfl⟩
    · exact stops_nil _
    · exact stops_cons (by decide) _
  | cons g gs => exact stops_cons (by decide) _

/-- One group is read, and what follows it. -/
theorem readGroups_group {g : Nat} (small : g < 2 ^ 16) {room : Nat} {isFirst : Bool} {t rest : Text}
    (here : skipColon? isFirst t = some (hexLower g ++ rest)) (undotted : readDotted? (hexLower g ++ rest) = none)
    (stops : Stops (fun c => (hexValue? c).isSome) rest) :
    readGroups (room + 1) isFirst t =
      (g :: (readGroups room false rest).1, (readGroups room false rest).2.1, (readGroups room false rest).2.2) := by
  simp only [readGroups, here, undotted, ite_self, readGroup?_hexLower small stops]

/-- No group is read where none begins. -/
theorem readGroups_end {room : Nat} {isFirst : Bool} {rest : Text} (ends : EndsGroups rest) (noDot : '.' ∉ rest) :
    readGroups room isFirst rest = ([], false, rest) := by
  cases room with
  | zero => rfl
  | succ room =>
    have undotted (u : Text) (noDot : '.' ∉ u) : (if 0 < room then readDotted? u else none) = none := by
      rw [readDotted?_of_notMem noDot, ite_self]
    have colon (u : Text) : readGroup? (':' :: u) = none := rfl
    rcases ends with rfl | ⟨t, rfl⟩
    · cases isFirst with
      | true => simp only [readGroups, skipColon?, ↓reduceIte, undotted [] noDot]; rfl
      | false => rfl
    · obtain ⟨_, noDot'⟩ := not_or.1 (List.mem_cons.not.1 noDot)
      cases isFirst with
      | true => simp only [readGroups, skipColon?, ↓reduceIte, undotted _ noDot, colon]
      | false =>
        simp only [readGroups, skipColon?, Bool.false_eq_true, ↓reduceIte, undotted _ noDot', colon]

theorem dot_notMem_groupsText (gs : List Nat) : '.' ∉ groupsText gs := by
  cases gs with
  | nil => simp [groupsText, join]
  | cons g gs => simp [groupsText_cons, dot_notMem_hexLower, dot_notMem_coloned]

/-- Groups behind colons are read as far as they go. -/
theorem readGroups_coloned {gs : List Nat} (small : ∀ g ∈ gs, g < 2 ^ 16) {rest : Text} (ends : EndsGroups rest)
    (noDot : '.' ∉ rest) {room : Nat} (fits : gs.length ≤ room) :
    readGroups room false (coloned gs ++ rest) = (gs, false, rest) := by
  induction gs generalizing room with
  | nil => exact readGroups_end ends noDot
  | cons g gs ih =>
    obtain ⟨room, rfl⟩ : ∃ r, room = r + 1 := ⟨room - 1, by simp at fits; omega⟩
    have colon : skipColon? false (coloned (g :: gs) ++ rest) = some (hexLower g ++ (coloned gs ++ rest)) := by
      simp [coloned, skipColon?]
    have undotted : readDotted? (hexLower g ++ (coloned gs ++ rest)) = none :=
      readDotted?_of_notMem (by simp [dot_notMem_hexLower, dot_notMem_coloned, noDot])
    rw [readGroups_group (small g (by simp)) colon undotted (stops_coloned gs ends),
      ih (fun h member => small h (List.mem_cons_of_mem g member)) (by simpa using fits)]

theorem readGroups_groupsText {gs : List Nat} (small : ∀ g ∈ gs, g < 2 ^ 16) {rest : Text} (ends : EndsGroups rest)
    (noDot : '.' ∉ rest) {room : Nat} (fits : gs.length ≤ room) :
    readGroups room true (groupsText gs ++ rest) = (gs, false, rest) := by
  cases gs with
  | nil => exact readGroups_end ends noDot
  | cons g gs =>
    obtain ⟨room, rfl⟩ : ∃ r, room = r + 1 := ⟨room - 1, by simp at fits; omega⟩
    have first : skipColon? true (groupsText (g :: gs) ++ rest) = some (hexLower g ++ (coloned gs ++ rest)) := by
      simp [groupsText_cons, skipColon?]
    have undotted : readDotted? (hexLower g ++ (coloned gs ++ rest)) = none :=
      readDotted?_of_notMem (by simp [dot_notMem_hexLower, dot_notMem_coloned, noDot])
    rw [readGroups_group (small g (by simp)) first undotted (stops_coloned gs ends),
      readGroups_coloned (fun h member => small h (List.mem_cons_of_mem g member)) ends noDot (by simpa using fits)]

/-- The run that is found lies within the groups and is made of zeros. -/
theorem longestZeros_spec (gs : List Nat) :
    gs = gs.take (longestZeros gs).1 ++ List.replicate (longestZeros gs).2 0 ++
      gs.drop ((longestZeros gs).1 + (longestZeros gs).2) := by
  induction gs with
  | nil => rfl
  | cons g gs ih =>
    simp only [longestZeros]
    split
    · have run : (g :: gs).takeWhile (· = 0) = List.replicate (leadingZeros (g :: gs)) 0 := by
        rw [leadingZeros, List.eq_replicate_iff]
        exact ⟨rfl, fun h member => by simpa using List.mem_takeWhile_imp member⟩
      have whole := List.takeWhile_append_dropWhile (p := (· = 0)) (l := g :: gs)
      have behind : (g :: gs).drop (leadingZeros (g :: gs)) = (g :: gs).dropWhile (· = 0) :=
        calc (g :: gs).drop (leadingZeros (g :: gs))
          _ = ((g :: gs).takeWhile (· = 0) ++ (g :: gs).dropWhile (· = 0)).drop (leadingZeros (g :: gs)) := by rw [whole]
          _ = (g :: gs).dropWhile (· = 0) := List.drop_left' rfl
      simp only [List.take_zero, List.nil_append, Nat.zero_add]
      rw [behind, ← run, whole]
    · have next : (longestZeros gs).1 + 1 + (longestZeros gs).2 = (longestZeros gs).1 + (longestZeros gs).2 + 1 := by
        omega
      simp only [next, List.take_succ_cons, List.drop_succ_cons, List.cons_append]
      rw [← ih]

theorem ofGroups_groups {n : Nat} (small : n < 2 ^ 128) : ofGroups (groups n) = n := by
  simp [ofGroups, groups, List.range_succ]
  omega

theorem small_groups (n : Nat) : ∀ g ∈ groups n, g < 2 ^ 16 := by
  intro g member
  obtain ⟨i, _, rfl⟩ := List.mem_map.1 member
  exact Nat.mod_lt _ (by decide)

theorem length_groups (n : Nat) : (groups n).length = 8 := by simp [groups]

/-- An address mapped into IPv6 is a group of ones and a dotted address behind two colons. -/
theorem readV6?_mapped {n : Nat} (small : n < 2 ^ 32) :
    readV6? ("::ffff:".toList ++ dottedText n) = some (0xFFFF * 2 ^ 32 + n, []) := by
  have dotted := readDotted?_dottedText small (stops_nil _)
  rw [List.append_nil] at dotted
  have behind : readGroups 6 false (':' :: dottedText n) = ([n / 2 ^ 16, n % 2 ^ 16], true, []) := by
    simp [readGroups, skipColon?, dotted]
  have tail : readGroups 7 true (hexLower 0xFFFF ++ ':' :: dottedText n) = ([0xFFFF, n / 2 ^ 16, n % 2 ^ 16], true, []) := by
    rw [readGroups_group (by decide) rfl rfl (stops_cons (by decide) _), behind]
  show readV6? (':' :: ':' :: (hexLower 0xFFFF ++ ':' :: dottedText n)) = _
  have head : readGroups 8 true (':' :: ':' :: (hexLower 0xFFFF ++ ':' :: dottedText n)) =
      ([], false, ':' :: ':' :: (hexLower 0xFFFF ++ ':' :: dottedText n)) := by
    rfl
  simp [readV6?, head, tail, ofGroups, List.replicate]
  omega

/-- Two colons stand for the groups that those on both sides leave. -/
theorem readV6?_compressed {front back : List Nat} (smallFront : ∀ g ∈ front, g < 2 ^ 16)
    (smallBack : ∀ g ∈ back, g < 2 ^ 16) (short : front.length + back.length < 8) :
    readV6? (groupsText front ++ ':' :: ':' :: groupsText back) =
      some (ofGroups (front ++ List.replicate (8 - front.length - back.length) 0 ++ back), []) := by
  have head : readGroups 8 true (groupsText front ++ ':' :: ':' :: groupsText back) =
      (front, false, ':' :: ':' :: groupsText back) :=
    readGroups_groupsText smallFront (.inr ⟨_, rfl⟩) (by simp [dot_notMem_groupsText]) (by omega)
  have tail := readGroups_groupsText smallBack (.inl rfl) (by simp) (by omega : back.length ≤ 7 - front.length)
  rw [List.append_nil] at tail
  have apart : front.length ≠ 8 := by omega
  simp only [readV6?, head, apart, ↓reduceIte, Bool.false_eq_true, tail]

theorem readV6?_v6Text {n : Nat} (small : n < 2 ^ 128) : readV6? (v6Text n) = some (n, []) := by
  unfold v6Text
  split
  · next mapped =>
    rw [readV6?_mapped (Nat.mod_lt n (by decide))]
    congr 2
    omega
  · have spec := longestZeros_spec (groups n)
    have length := length_groups n
    simp only
    generalize longestZeros (groups n) = run at spec
    obtain ⟨start, zeros⟩ := run
    simp only at spec ⊢
    split
    · next long =>
      have inside : start + zeros ≤ 8 := by
        have sizes := congrArg List.length spec
        simp only [List.length_append, List.length_take, List.length_replicate, List.length_drop, length] at sizes
        omega
      have front : ((groups n).take start).length = start := by rw [List.length_take, length]; omega
      have back : ((groups n).drop (start + zeros)).length = 8 - (start + zeros) := by rw [List.length_drop, length]
      have between : 8 - start - (8 - (start + zeros)) = zeros := by omega
      rw [List.append_assoc]
      refine (readV6?_compressed (fun g member => small_groups n g (List.mem_of_mem_take member))
        (fun g member => small_groups n g (List.mem_of_mem_drop member)) (by omega)).trans ?_
      rw [front, back, between, ← spec, ofGroups_groups small]
    · have whole := readGroups_groupsText (small_groups n) (.inl rfl) (by simp) (Nat.le_of_eq length)
      rw [List.append_nil] at whole
      simp only [readV6?, whole, length, ↓reduceIte, ofGroups_groups small]

theorem readDotted?_v6Text (n : Nat) : readDotted? (v6Text n) = none := by
  unfold v6Text
  split
  · rfl
  · refine readDotted?_of_notMem ?_
    simp only
    split <;> simp [dot_notMem_groupsText]

/-- An address is read back from its text. -/
theorem ofText?_toText (a : Address) : Address.ofText? a.toText = some a := by
  cases a with
  | v4 bits =>
    have read := readDotted?_dottedText bits.isLt (stops_nil _)
    rw [List.append_nil] at read
    simp only [Address.ofText?, Address.toText, read, BitVec.ofNat_toNat, BitVec.setWidth_eq]
  | v6 bits =>
    simp only [Address.ofText?, Address.toText, readDotted?_v6Text, readV6?_v6Text bits.isLt, BitVec.ofNat_toNat,
      BitVec.setWidth_eq]

end ProxyRouting.Ip
