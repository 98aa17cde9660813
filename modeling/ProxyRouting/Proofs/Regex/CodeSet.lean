import Mathlib.Data.List.Chain
import ProxyRouting.Regex.Script

/-!
Code sets: their order and their members. Whatever ranges a class lists, those it is spelled with ascend and do not
touch, and so do the characters that are left of them (`ordered_scalars`, `ordered_classCodes`); and they have the
members of the ranges listed, or, in a negated class, all other characters (`contains_scalars_classCodes`).
-/
namespace ProxyRouting.Regex

theorem isSurrogate_toNat (c : Char) : CodeSet.isSurrogate c.toNat = false := by
  have valid := c.valid
  simp only [CodeSet.isSurrogate, Bool.and_eq_false_iff, decide_eq_false_iff_not, Nat.not_le]
  rcases valid with low | ⟨high, _⟩
  · exact .inl low
  · exact .inr high

namespace CodeSet

/-- No range is empty. -/
def Filled (set : CodeSet) : Prop := ∀ r ∈ set, r.low ≤ r.high

/-- Ranges that are not empty, each with a code point between it and those behind. -/
structure Ascending (set : CodeSet) : Prop where
  filled : Filled set
  apart : set.Pairwise fun r s => r.high + 1 < s.low

theorem ascending_nil : Ascending [] := ⟨by simp [Filled], .nil⟩

theorem ascending_cons {r : CodeRange} {set : CodeSet} :
    Ascending (r :: set) ↔ r.low ≤ r.high ∧ (∀ s ∈ set, r.high + 1 < s.low) ∧ Ascending set := by
  constructor
  · rintro ⟨filled, apart⟩
    rw [List.pairwise_cons] at apart
    exact ⟨filled r (by simp), apart.1, fun s member => filled s (by simp [member]), apart.2⟩
  · rintro ⟨first, apart, filled, others⟩
    refine ⟨?_, List.pairwise_cons.2 ⟨apart, others⟩⟩
    intro s member
    rcases List.mem_cons.1 member with rfl | later
    · exact first
    · exact filled s later

theorem mem_insert {r s : CodeRange} {set : CodeSet} : s ∈ insert r set ↔ s = r ∨ s ∈ set := by
  induction set with
  | nil => simp [insert]
  | cons t set ih =>
    rw [insert]
    split
    · simp
    · rw [List.mem_cons, ih, List.mem_cons]
      tauto

theorem mem_sort {s : CodeRange} {set : CodeSet} : s ∈ sort set ↔ s ∈ set := by
  induction set with
  | nil => simp [sort]
  | cons r set ih =>
    show s ∈ insert r (sort set) ↔ _
    rw [mem_insert, ih, List.mem_cons]

theorem sorted_insert {r : CodeRange} {set : CodeSet} (sorted : set.Pairwise fun r s => r.low ≤ s.low) :
    (insert r set).Pairwise fun r s => r.low ≤ s.low := by
  induction set with
  | nil => simp [insert]
  | cons t set ih =>
    obtain ⟨first, others⟩ := List.pairwise_cons.1 sorted
    rw [insert]
    split
    · next below =>
      refine List.pairwise_cons.2 ⟨?_, sorted⟩
      intro s member
      rcases List.mem_cons.1 member with rfl | later
      · exact below
      · exact Nat.le_trans below (first s later)
    · next above =>
      refine List.pairwise_cons.2 ⟨?_, ih others⟩
      intro s member
      rcases mem_insert.1 member with rfl | later
      · omega
      · exact first s later

theorem sorted_sort (set : CodeSet) : (sort set).Pairwise fun r s => r.low ≤ s.low := by
  induction set with
  | nil => exact .nil
  | cons r set ih => exact sorted_insert ih

theorem ascending_joinFrom {current : CodeRange} {set : CodeSet} (filled : Filled (current :: set))
    (sorted : (current :: set).Pairwise fun r s => r.low ≤ s.low) :
    Ascending (joinFrom current set) ∧ ∀ r ∈ joinFrom current set, current.low ≤ r.low := by
  induction set generalizing current with
  | nil =>
    refine ⟨⟨filled, by simp [joinFrom]⟩, ?_⟩
    simp [joinFrom]
  | cons r set ih =>
    obtain ⟨first, others⟩ := List.pairwise_cons.1 sorted
    have here : current.low ≤ current.high := filled current (by simp)
    rw [joinFrom]
    split
    · refine ih ?_ (List.pairwise_cons.2 ⟨fun s member => first s (by simp [member]), others.of_cons⟩)
      intro s member
      rcases List.mem_cons.1 member with rfl | later
      · exact Nat.le_trans here (Nat.le_max_left _ _)
      · exact filled s (by simp [later])
    · next gap =>
      obtain ⟨ascending, above⟩ := ih (fun s member => filled s (List.mem_cons_of_mem current member)) others
      refine ⟨ascending_cons.2 ⟨here, ?_, ascending⟩, ?_⟩
      · intro s member
        have := above s member
        omega
      · intro s member
        rcases List.mem_cons.1 member with rfl | later
        · exact Nat.le_refl _
        · exact Nat.le_trans (first r (by simp)) (above s later)

theorem ascending_normalize {set : CodeSet} (filled : Filled set) : Ascending (normalize set) := by
  have sorted := sorted_sort set
  have kept : Filled (sort set) := fun r member => filled r (mem_sort.1 member)
  unfold normalize
  split
  · exact ascending_nil
  · next r rest same =>
    rw [same] at sorted kept
    exact (ascending_joinFrom kept sorted).1

theorem ascending_gapsFrom {next : Nat} {set : CodeSet} (ascending : Ascending set) (below : ∀ r ∈ set, next ≤ r.low) :
    Ascending (gapsFrom next set) ∧ ∀ r ∈ gapsFrom next set, next ≤ r.low := by
  induction set generalizing next with
  | nil =>
    rw [gapsFrom]
    split
    · next inside => exact ⟨ascending_cons.2 ⟨inside, by simp, ascending_nil⟩, by simp⟩
    · exact ⟨ascending_nil, by simp⟩
  | cons r set ih =>
    obtain ⟨filled, apart, others⟩ := ascending_cons.1 ascending
    have start := below r (by simp)
    have later : ∀ s ∈ set, r.high + 1 ≤ s.low := fun s member => Nat.le_of_lt (apart s member)
    obtain ⟨rest, above⟩ := ih others later
    rw [gapsFrom]
    split
    · next gap =>
      refine ⟨ascending_cons.2 ⟨?_, ?_, rest⟩, ?_⟩
      · show next ≤ r.low - 1
        omega
      · intro s member
        have := above s member
        show r.low - 1 + 1 < s.low
        omega
      · intro s member
        rcases List.mem_cons.1 member with rfl | later
        · exact Nat.le_refl _
        · have := above s later
          omega
    · refine ⟨rest, fun s member => ?_⟩
      have := above s member
      omega

theorem ascending_complement {set : CodeSet} (filled : Filled set) : Ascending (complement set) :=
  (ascending_gapsFrom (ascending_normalize filled) fun _ _ => Nat.zero_le _).1

theorem ascending_ofEscape? {c : Char} {set : CodeSet} (found : ofEscape? c = some set) : Ascending set := by
  have simple : Ascending digits ∧ Ascending wordChars ∧ Ascending spaces := by
    refine ⟨⟨?_, ?_⟩, ⟨?_, ?_⟩, ⟨?_, ?_⟩⟩ <;> simp [Filled, digits, wordChars, spaces]
  unfold ofEscape? at found
  split at found <;> cases found
  · exact simple.1
  · exact ascending_complement simple.1.filled
  · exact simple.2.1
  · exact ascending_complement simple.2.1.filled
  · exact simple.2.2
  · exact ascending_complement simple.2.2.filled

theorem contains_iff {set : CodeSet} {n : Nat} : contains set n = true ↔ ∃ r ∈ set, r.low ≤ n ∧ n ≤ r.high := by
  simp [contains]

theorem contains_cons {r : CodeRange} {set : CodeSet} {n : Nat} :
    contains (r :: set) n = true ↔ (r.low ≤ n ∧ n ≤ r.high) ∨ contains set n = true := by
  simp [contains]

theorem contains_append {set set' : CodeSet} {n : Nat} :
    contains (set ++ set') n = true ↔ contains set n = true ∨ contains set' n = true := by
  simp [contains]

/-- Joining ranges in the order of their low ends neither adds a member nor loses one. -/
theorem contains_joinFrom {current : CodeRange} {set : CodeSet}
    (sorted : (current :: set).Pairwise fun r s => r.low ≤ s.low) {n : Nat} :
    contains (joinFrom current set) n = true ↔ contains (current :: set) n = true := by
  induction set generalizing current with
  | nil => rfl
  | cons r set ih =>
    obtain ⟨first, others⟩ := List.pairwise_cons.1 sorted
    have start : current.low ≤ r.low := first r (by simp)
    rw [joinFrom]
    by_cases touches : r.low ≤ current.high + 1
    · have joined : contains (joinFrom ⟨current.low, max current.high r.high⟩ set) n = true ↔
          contains (⟨current.low, max current.high r.high⟩ :: set) n = true := by
        refine ih (List.pairwise_cons.2 ⟨?_, others.of_cons⟩)
        intro s member
        exact first s (by simp [member])
      rw [if_pos touches, joined, contains_cons, contains_cons, contains_cons, ← or_assoc]
      refine or_congr ?_ Iff.rfl
      show current.low ≤ n ∧ n ≤ max current.high r.high ↔ _
      omega
    · rw [if_neg touches, contains_cons, ih others]
      exact contains_cons.symm

theorem contains_normalize {set : CodeSet} {n : Nat} : contains (normalize set) n = true ↔ contains set n = true := by
  have kept : contains (sort set) n = true ↔ contains set n = true := by simp only [contains_iff, mem_sort]
  have sorted := sorted_sort set
  rw [← kept]
  unfold normalize
  split
  · next none => rw [none]
  · next r rest same =>
    rw [same] at sorted ⊢
    exact contains_joinFrom sorted

/-- The ranges are of code points, and none is empty. -/
def Valid (set : CodeSet) : Prop := ∀ r ∈ set, r.low ≤ r.high ∧ r.high ≤ maxCode

theorem Valid.filled {set : CodeSet} (valid : Valid set) : Filled set := fun r member => (valid r member).1

theorem Valid.append {set set' : CodeSet} (first : Valid set) (second : Valid set') : Valid (set ++ set') := by
  intro r member
  rcases List.mem_append.1 member with front | back
  · exact first r front
  · exact second r back

theorem valid_joinFrom {current : CodeRange} {set : CodeSet} (valid : Valid (current :: set)) :
    Valid (joinFrom current set) := by
  induction set generalizing current with
  | nil => exact valid
  | cons r set ih =>
    obtain ⟨filled, bounded⟩ := valid current (by simp)
    obtain ⟨filled', bounded'⟩ := valid r (by simp)
    rw [joinFrom]
    split
    · refine ih fun s member => ?_
      rcases List.mem_cons.1 member with rfl | later
      · exact ⟨Nat.le_trans filled (Nat.le_max_left _ _), Nat.max_le.2 ⟨bounded, bounded'⟩⟩
      · exact valid s (by simp [later])
    · intro s member
      rcases List.mem_cons.1 member with rfl | later
      · exact ⟨filled, bounded⟩
      · exact ih (fun s member => valid s (List.mem_cons_of_mem current member)) s later

theorem valid_normalize {set : CodeSet} (valid : Valid set) : Valid (normalize set) := by
  have kept : Valid (sort set) := fun r member => valid r (mem_sort.1 member)
  unfold normalize
  split
  · simp [Valid]
  · next same =>
    rw [same] at kept
    exact valid_joinFrom kept

/-- The gaps of ascending ranges have for members what the ranges leave out. -/
theorem contains_gapsFrom {next : Nat} {set : CodeSet} (ascending : Ascending set) (valid : Valid set)
    (below : ∀ r ∈ set, next ≤ r.low) {n : Nat} :
    contains (gapsFrom next set) n = true ↔ (next ≤ n ∧ n ≤ maxCode) ∧ ¬ contains set n = true := by
  induction set generalizing next with
  | nil =>
    rw [gapsFrom]
    by_cases inside : next ≤ maxCode
    · rw [if_pos inside]
      simp [contains]
    · rw [if_neg inside]
      have nowhere : ¬ (next ≤ n ∧ n ≤ maxCode) := by omega
      simp [contains, nowhere]
  | cons r set ih =>
    obtain ⟨filled, apart, others⟩ := ascending_cons.1 ascending
    have start := below r (by simp)
    have bounded := (valid r (by simp)).2
    have later : ∀ s ∈ set, r.high + 1 ≤ s.low := fun s member => Nat.le_of_lt (apart s member)
    have rest := ih others (fun s member => valid s (List.mem_cons_of_mem r member)) later
    -- the other ranges begin behind the first one, so in the gap before it there is none of their members
    have outside : contains set n = true → r.high + 1 ≤ n := by
      rw [contains_iff]
      rintro ⟨s, member, low, _⟩
      exact Nat.le_trans (later s member) low
    rw [gapsFrom]
    by_cases gap : next < r.low
    · rw [if_pos gap, contains_cons, rest, contains_cons]
      show (next ≤ n ∧ n ≤ r.low - 1) ∨ _ ↔ _
      by_cases member : contains set n = true
      · have := outside member
        simp only [member, not_true_eq_false, and_false, or_true, or_false, iff_false]
        omega
      · simp only [member, Bool.false_eq_true, not_false_eq_true, and_true, or_false]
        omega
    · rw [if_neg gap, rest, contains_cons]
      by_cases member : contains set n = true
      · simp only [member, not_true_eq_false, and_false, or_true]
      · simp only [member, Bool.false_eq_true, not_false_eq_true, and_true, or_false]
        omega

theorem contains_complement {set : CodeSet} (valid : Valid set) {n : Nat} :
    contains (complement set) n = true ↔ n ≤ maxCode ∧ ¬ contains set n = true := by
  rw [complement, contains_gapsFrom (ascending_normalize valid.filled) (valid_normalize valid) fun _ _ => Nat.zero_le _,
    contains_normalize]
  simp

theorem valid_gapsFrom {next : Nat} {set : CodeSet} (valid : Valid set) : Valid (gapsFrom next set) := by
  induction set generalizing next with
  | nil =>
    rw [gapsFrom]
    split
    · next inside => simpa [Valid] using inside
    · simp [Valid]
  | cons r set ih =>
    obtain ⟨filled, bounded⟩ := valid r (by simp)
    have rest : Valid (gapsFrom (r.high + 1) set) := ih fun s member => valid s (List.mem_cons_of_mem r member)
    rw [gapsFrom]
    split
    · next gap =>
      intro s member
      rcases List.mem_cons.1 member with rfl | later
      · show next ≤ r.low - 1 ∧ r.low - 1 ≤ maxCode
        omega
      · exact rest s later
    · exact rest

theorem valid_complement {set : CodeSet} (valid : Valid set) : Valid (complement set) :=
  valid_gapsFrom (valid_normalize valid)

theorem valid_ofEscape? {c : Char} {set : CodeSet} (found : ofEscape? c = some set) : Valid set := by
  have simple : Valid digits ∧ Valid wordChars ∧ Valid spaces := by
    refine ⟨?_, ?_, ?_⟩ <;> simp [Valid, digits, wordChars, spaces, maxCode]
  unfold ofEscape? at found
  split at found <;> cases found
  · exact simple.1
  · exact valid_complement simple.1
  · exact simple.2.1
  · exact valid_complement simple.2.1
  · exact simple.2.2
  · exact valid_complement simple.2.2

/-! ## Characters -/

theorem toNat_le (c : Char) : c.toNat ≤ maxCode := by
  rcases c.valid with low | ⟨_, high⟩
  · exact Nat.le_trans (Nat.le_of_lt low) (by decide)
  · exact Nat.le_of_lt_succ high

theorem toNat_ofNat {n : Nat} (bound : n ≤ maxCode) (whole : isSurrogate n = false) : (Char.ofNat n).toNat = n := by
  have valid : n.isValidChar := by
    simp only [isSurrogate, Bool.and_eq_false_iff, decide_eq_false_iff_not] at whole
    simp only [maxCode] at bound
    simp only [Nat.isValidChar]
    omega
  rw [Char.ofNat, dif_pos valid]
  rfl

theorem isSurrogate_iff {n : Nat} : isSurrogate n = true ↔ 0xD800 ≤ n ∧ n ≤ 0xDFFF := by simp [isSurrogate]

/-- No character lies between a low end and where it moves to past the surrogates. -/
theorem lowEnd_le {n : Nat} {c : Char} : (if isSurrogate n then 0xE000 else n) ≤ c.toNat ↔ n ≤ c.toNat := by
  have whole := isSurrogate_toNat c
  simp only [isSurrogate, Bool.and_eq_false_iff, decide_eq_false_iff_not] at whole
  split
  · next half =>
    rw [isSurrogate_iff] at half
    omega
  · exact Iff.rfl

theorem le_highEnd {n : Nat} {c : Char} : c.toNat ≤ (if isSurrogate n then 0xD7FF else n) ↔ c.toNat ≤ n := by
  have whole := isSurrogate_toNat c
  simp only [isSurrogate, Bool.and_eq_false_iff, decide_eq_false_iff_not] at whole
  split
  · next half =>
    rw [isSurrogate_iff] at half
    omega
  · exact Iff.rfl

/-- The ends of what is left of a range: those of the range, moved inwards past the surrogates. -/
theorem clip?_ends {r : CodeRange} {s : CharRange} (clipped : clip? r = some s) :
    s.first.toNat = (if isSurrogate r.low then 0xE000 else r.low) ∧
      s.last.toNat = (if isSurrogate r.high then 0xD7FF else r.high) ∧ s.first.toNat ≤ s.last.toNat := by
  obtain ⟨inside, same⟩ := Option.ite_none_right_eq_some.1 clipped
  have low : (Char.ofNat (if isSurrogate r.low then 0xE000 else r.low)).toNat =
      if isSurrogate r.low then 0xE000 else r.low := by
    refine toNat_ofNat (Nat.le_trans inside.1 inside.2) ?_
    split
    · rfl
    · next whole => simpa using whole
  have high : (Char.ofNat (if isSurrogate r.high then 0xD7FF else r.high)).toNat =
      if isSurrogate r.high then 0xD7FF else r.high := by
    refine toNat_ofNat inside.2 ?_
    split
    · rfl
    · next whole => simpa using whole
  cases same
  refine ⟨low, high, ?_⟩
  rw [low, high]
  exact inside.1

/-- What is left of a range lies inside it. -/
theorem clip?_inside {r : CodeRange} {s : CharRange} (clipped : clip? r = some s) :
    r.low ≤ s.first.toNat ∧ s.first.toNat ≤ s.last.toNat ∧ s.last.toNat ≤ r.high := by
  obtain ⟨low, high, filled⟩ := clip?_ends clipped
  exact ⟨lowEnd_le.1 (Nat.le_of_eq low.symm), filled, le_highEnd.1 (Nat.le_of_eq high)⟩

theorem charRange_contains {s : CharRange} {c : Char} :
    s.contains c = true ↔ s.first.toNat ≤ c.toNat ∧ c.toNat ≤ s.last.toNat := by
  rw [CharRange.contains, Bool.and_eq_true, decide_eq_true_eq, decide_eq_true_eq]
  rfl

/-- No character of a range is lost with its surrogates, and none is gained. -/
theorem contains_clip? {r : CodeRange} (bounded : r.high ≤ maxCode) (c : Char) :
    (∃ s, clip? r = some s ∧ s.contains c = true) ↔ r.low ≤ c.toNat ∧ c.toNat ≤ r.high := by
  constructor
  · rintro ⟨s, clipped, member⟩
    obtain ⟨first, last, _⟩ := clip?_ends clipped
    rwa [charRange_contains, first, last, lowEnd_le, le_highEnd] at member
  · intro member
    rw [← lowEnd_le, ← le_highEnd] at member
    have inside : (if isSurrogate r.low then 0xE000 else r.low) ≤ (if isSurrogate r.high then 0xD7FF else r.high) ∧
        (if isSurrogate r.high then 0xD7FF else r.high) ≤ maxCode := by
      refine ⟨Nat.le_trans member.1 member.2, ?_⟩
      split
      · decide
      · exact bounded
    obtain ⟨s, clipped⟩ : ∃ s, clip? r = some s := ⟨_, if_pos inside⟩
    obtain ⟨first, last, _⟩ := clip?_ends clipped
    refine ⟨s, clipped, ?_⟩
    rwa [charRange_contains, first, last]

/-- The characters left of a set are its members. -/
theorem contains_scalars {set : CodeSet} (valid : Valid set) (c : Char) :
    (∃ s ∈ scalars set, s.contains c = true) ↔ contains set c.toNat = true := by
  rw [contains_iff]
  constructor
  · rintro ⟨s, member, inside⟩
    obtain ⟨r, listed, clipped⟩ := List.mem_filterMap.1 member
    exact ⟨r, listed, (contains_clip? (valid r listed).2 c).1 ⟨s, clipped, inside⟩⟩
  · rintro ⟨r, listed, inside⟩
    obtain ⟨s, clipped, member⟩ := (contains_clip? (valid r listed).2 c).2 inside
    exact ⟨s, List.mem_filterMap.2 ⟨r, listed, clipped⟩, member⟩

end CodeSet

/-- Ranges of characters that are not empty, each ending before the next begins. -/
structure Ordered (ranges : List CharRange) : Prop where
  filled : ∀ r ∈ ranges, r.first ≤ r.last
  apart : ranges.Pairwise fun r s => r.last < s.first

theorem ordered_scalars {set : CodeSet} (ascending : set.Ascending) : Ordered set.scalars := by
  constructor
  · intro s member
    obtain ⟨r, _, clipped⟩ := List.mem_filterMap.1 member
    exact (CodeSet.clip?_inside clipped).2.1
  · refine ascending.apart.filterMap CodeSet.clip? ?_
    intro r s gap first clipped second clipped'
    obtain ⟨_, _, ends⟩ := CodeSet.clip?_inside clipped
    obtain ⟨starts, _, _⟩ := CodeSet.clip?_inside clipped'
    show first.last.toNat < second.first.toNat
    omega

theorem ordered_anyChar : Ordered anyChar :=
  ordered_scalars (CodeSet.ascending_complement (by simp [CodeSet.Filled, CodeSet.lineTerminators]))

/-! ## Classes -/

theorem valid_readAtom {offset : Nat} {c : Char} {t rest : Text} {a : Atom}
    (read : readAtom offset c t = .ok (a, rest)) : CodeSet.Valid a.codes := by
  have single (d : Char) : CodeSet.Valid (Atom.char d).codes := by
    simpa [CodeSet.Valid, Atom.codes] using CodeSet.toNat_le d
  unfold readAtom at read
  split at read
  · split at read
    · cases read
    · split at read
      · next found => cases read; exact CodeSet.valid_ofEscape? found
      · split at read
        · cases read; exact single _
        · split at read
          · cases read; exact single _
          · cases read
  · cases read; exact single _

theorem valid_dashItem {offset : Nat} {a b : Atom} {item : ClassItem} (low : CodeSet.Valid a.codes)
    (high : CodeSet.Valid b.codes) (made : dashItem offset a b = .ok item) : CodeSet.Valid item.codes := by
  have dash : CodeSet.Valid [⟨'-'.toNat, '-'.toNat⟩] := by simpa [CodeSet.Valid] using CodeSet.toNat_le '-'
  have dashed : CodeSet.Valid (ClassItem.dashed a b).codes := (low.append dash).append high
  unfold dashItem at made
  split at made
  · split at made
    · cases made
    · next ascending =>
      cases made
      simpa [CodeSet.Valid, ClassItem.codes] using ⟨Nat.le_of_not_lt ascending, CodeSet.toNat_le _⟩
  · cases made
    exact dashed

theorem valid_readItem {total : Nat} {c : Char} {t rest : Text} {item : ClassItem}
    (read : readItem total c t = .ok (item, rest)) : CodeSet.Valid item.codes := by
  unfold readItem at read
  simp only at read
  split at read
  · cases read
  · next first =>
    split at read
    · cases read; exact valid_readAtom first
    · split at read
      · cases read
      · next second =>
        split at read
        · cases read
        · next made => cases read; exact valid_dashItem (valid_readAtom first) (valid_readAtom second) made
  · next first => cases read; exact valid_readAtom first

theorem valid_readItems {total : Nat} {t rest : Text} {items : List ClassItem}
    (read : readItems total t = .ok (items, rest)) : CodeSet.Valid (items.flatMap ClassItem.codes) := by
  fun_induction readItems total t generalizing items rest with
  | case1 => cases read
  | case2 => cases read; simp [CodeSet.Valid]
  | case3 => cases read
  | case4 => cases read
  | case5 c t _ item rest' found items' rest'' inner ih =>
    cases read
    rw [List.flatMap_cons]
    exact (valid_readItem found).append (ih inner)

/-- Behind a caret, or at once, come the items of a class. -/
theorem readClass_eq (total : Nat) (t : Text) : readClass total t =
    (readItems total (if t.head? = some '^' then t.tail else t)).map fun found =>
      ((decide (t.head? = some '^'), found.1), found.2) := by
  unfold readClass
  split
  · next rest =>
    simp only [List.head?_cons, List.tail_cons, ↓reduceIte, decide_true]
    cases readItems total rest <;> rfl
  · next other =>
    have listed : t.head? ≠ some '^' := by
      intro caret
      obtain ⟨u, same⟩ := List.head?_eq_some_iff.1 caret
      exact other u same
    rw [if_neg listed, decide_eq_false listed]
    cases readItems total t <;> rfl

theorem readItems_of_readClass {total : Nat} {negated : Bool} {items : List ClassItem} {t rest : Text}
    (read : readClass total t = .ok ((negated, items), rest)) :
    readItems total (if t.head? = some '^' then t.tail else t) = .ok (items, rest) ∧
      negated = decide (t.head? = some '^') := by
  rw [readClass_eq] at read
  cases inner : readItems total (if t.head? = some '^' then t.tail else t) with
  | error fault =>
    rw [inner] at read
    cases read
  | ok found =>
    rw [inner] at read
    cases read
    exact ⟨rfl, rfl⟩

theorem valid_readClass {total : Nat} {negated : Bool} {items : List ClassItem} {t rest : Text}
    (read : readClass total t = .ok ((negated, items), rest)) : CodeSet.Valid (items.flatMap ClassItem.codes) :=
  valid_readItems (readItems_of_readClass read).1

theorem ordered_classCodes {total : Nat} {negated : Bool} {items : List ClassItem} {t rest : Text}
    (read : readClass total t = .ok ((negated, items), rest)) : Ordered (classCodes negated items).scalars := by
  have valid := valid_readClass read
  refine ordered_scalars ?_
  unfold classCodes
  split
  · exact CodeSet.ascending_complement valid.filled
  · exact CodeSet.ascending_normalize valid.filled

theorem valid_classCodes {negated : Bool} {items : List ClassItem}
    (valid : CodeSet.Valid (items.flatMap ClassItem.codes)) : CodeSet.Valid (classCodes negated items) := by
  cases negated with
  | false => exact CodeSet.valid_normalize valid
  | true => exact CodeSet.valid_complement valid

/-- The characters of a class are those listed, or in a negated class all others. -/
theorem contains_scalars_classCodes {negated : Bool} {items : List ClassItem}
    (valid : CodeSet.Valid (items.flatMap ClassItem.codes)) (c : Char) :
    (∃ r ∈ (classCodes negated items).scalars, r.contains c = true) ↔
      (negated = false ↔ CodeSet.contains (items.flatMap ClassItem.codes) c.toNat = true) := by
  rw [CodeSet.contains_scalars (valid_classCodes valid)]
  cases negated with
  | false => simpa [classCodes] using CodeSet.contains_normalize
  | true => simpa [classCodes, CodeSet.toNat_le c] using CodeSet.contains_complement valid (n := c.toNat)

end ProxyRouting.Regex
