import ProxyRouting.Proofs.Regex.ClassText
import ProxyRouting.Regex.WordRange

/-!
The algebra of code sets. Ascending ranges that do not touch are determined by their members (`ascending_ext`), so a set
has one normal form in whatever order its ranges come, and the complement of its complement is this form
(`complement_complement`). In words of 32 bits no step of this leaves the words, and the class that is spelled for a set
has just the characters among its members (`range_algebra`).
-/
namespace ProxyRouting.Regex

namespace CodeSet

theorem low_le_of_contains {r : CodeRange} {set : CodeSet} (ascending : Ascending (r :: set)) {n : Nat}
    (member : contains (r :: set) n = true) : r.low ≤ n := by
  obtain ⟨filled, apart, -⟩ := ascending_cons.1 ascending
  obtain ⟨s, listed, low, -⟩ := contains_iff.1 member
  rcases List.mem_cons.1 listed with rfl | later
  · exact low
  · have := apart s later
    omega

/-- Behind its first range, a set has the members of the others. -/
theorem contains_tail {r : CodeRange} {set : CodeSet} (ascending : Ascending (r :: set)) (n : Nat) :
    contains set n = true ↔ r.high + 1 < n ∧ contains (r :: set) n = true := by
  obtain ⟨-, apart, -⟩ := ascending_cons.1 ascending
  rw [contains_cons]
  constructor
  · intro member
    obtain ⟨s, listed, low, -⟩ := contains_iff.1 member
    exact ⟨Nat.lt_of_lt_of_le (apart s listed) low, .inr member⟩
  · rintro ⟨behind, inside | member⟩
    · omega
    · exact member

/-- The code point behind a range is no member. -/
theorem not_contains_succ {r : CodeRange} {set : CodeSet} (ascending : Ascending (r :: set)) :
    ¬ contains (r :: set) (r.high + 1) = true := by
  intro member
  rcases contains_cons.1 member with inside | later
  · omega
  · exact Nat.lt_irrefl _ ((contains_tail ascending _).1 later).1

theorem high_le_of_same {r s : CodeRange} {set set' : CodeSet} (first : Ascending (r :: set)) (low : r.low = s.low)
    (same : ∀ n, contains (r :: set) n = true ↔ contains (s :: set') n = true) : s.high ≤ r.high := by
  by_contra longer
  have filled := (ascending_cons.1 first).1
  exact not_contains_succ first ((same _).2 (contains_cons.2 (.inl (by omega))))

/-- Two sets in ascending ranges that have the same members are the same list. -/
theorem ascending_ext {set set' : CodeSet} (first : Ascending set) (second : Ascending set')
    (same : ∀ n, contains set n = true ↔ contains set' n = true) : set = set' := by
  have start {r : CodeRange} {set : CodeSet} (ascending : Ascending (r :: set)) : contains (r :: set) r.low = true :=
    contains_cons.2 (.inl ⟨Nat.le_refl _, (ascending_cons.1 ascending).1⟩)
  induction set generalizing set' with
  | nil =>
    cases set' with
    | nil => rfl
    | cons s set' => cases (same s.low).2 (start second)
  | cons r set ih =>
    cases set' with
    | nil => cases (same r.low).1 (start first)
    | cons s set' =>
      have low : r.low = s.low := Nat.le_antisymm (low_le_of_contains first ((same _).2 (start second)))
        (low_le_of_contains second ((same _).1 (start first)))
      have high : r.high = s.high := Nat.le_antisymm (high_le_of_same second low.symm fun n => (same n).symm)
        (high_le_of_same first low same)
      obtain rfl : r = s := by
        cases r
        cases s
        exact CodeRange.mk.injEq .. ▸ ⟨low, high⟩
      congr 1
      refine ih (ascending_cons.1 first).2.2 (ascending_cons.1 second).2.2 fun n => ?_
      rw [contains_tail first, contains_tail second, same]

/-- The code points outside of those that are outside a set are those in it. -/
theorem complement_complement {set : CodeSet} (valid : Valid set) : complement (complement set) = normalize set := by
  refine ascending_ext (ascending_complement (valid_complement valid).filled) (ascending_normalize valid.filled) fun n => ?_
  rw [contains_complement (valid_complement valid), contains_complement valid, contains_normalize]
  constructor
  · rintro ⟨inside, other⟩
    exact not_not.1 fun outside => other ⟨inside, outside⟩
  · intro member
    obtain ⟨r, listed, -, high⟩ := contains_iff.1 member
    exact ⟨Nat.le_trans high (valid r listed).2, fun outside => outside.2 member⟩

/-- Joins ranges in the order of their low ends. -/
def joined : CodeSet → CodeSet
  | [] => []
  | r :: rest => joinFrom r rest

/-- Ranges that start at the same code point may come in any order. -/
theorem joined_eq_normalize {set sorted : CodeSet} (filled : Filled set) (ordered : sorted.Pairwise fun r s => r.low ≤ s.low)
    (kept : ∀ r, r ∈ sorted ↔ r ∈ set) : joined sorted = normalize set := by
  have same (n : Nat) : contains sorted n = true ↔ contains set n = true := by simp only [contains_iff, kept]
  have filled' : Filled sorted := fun r member => filled r ((kept r).1 member)
  cases sorted with
  | nil =>
    refine ascending_ext ascending_nil (ascending_normalize filled) fun n => ?_
    rw [contains_normalize]
    exact same n
  | cons r rest =>
    refine ascending_ext (ascending_joinFrom filled' ordered).1 (ascending_normalize filled) fun n => ?_
    rw [contains_normalize, ← same]
    exact contains_joinFrom ordered

end CodeSet

/-! ## Words -/

namespace WordRange
open CodeSet (Ascending Valid maxCode contains)

theorem code_injective : Function.Injective code := by
  intro r s same
  obtain ⟨lows, highs⟩ := CodeRange.mk.inj same
  exact WordRange.ext (UInt32.toNat_inj.1 lows) (UInt32.toNat_inj.1 highs)

theorem codes_injective : Function.Injective codes := List.map_injective_iff.2 code_injective

theorem toNat_max (a b : UInt32) : (max a b).toNat = max a.toNat b.toNat := by
  show (if a ≤ b then b else a).toNat = _
  split
  · next below => rw [Nat.max_eq_right (UInt32.le_iff_toNat_le.1 below)]
  · next above =>
    have := mt UInt32.le_iff_toNat_le.2 above
    rw [Nat.max_eq_left (by omega)]

theorem succ?_eq {w : UInt32} (inside : w.toNat < 0xFFFFFFFF) : ∃ next, succ? w = some next ∧ next.toNat = w.toNat + 1 := by
  have other : w ≠ 0xFFFFFFFF := by
    rintro rfl
    exact absurd inside (by decide)
  refine ⟨w + 1, if_neg other, ?_⟩
  rw [UInt32.toNat_add]
  exact Nat.mod_eq_of_lt (by simpa using Nat.succ_lt_succ inside)

/-- Stopping at the last word touches as much as going beyond it. -/
theorem le_saturated {w last : UInt32} : w ≤ (succ? last).getD last ↔ w.toNat ≤ last.toNat + 1 := by
  rw [UInt32.le_iff_toNat_le]
  by_cases inside : last.toNat < 0xFFFFFFFF
  · obtain ⟨next, found, value⟩ := succ?_eq inside
    rw [found, Option.getD_some, value]
  · have bound := w.toNat_lt
    have top : last = 0xFFFFFFFF := by
      have := last.toNat_lt
      exact UInt32.toNat_inj.1 (by show last.toNat = 0xFFFFFFFF; omega)
    subst top
    show w.toNat ≤ 0xFFFFFFFF ↔ w.toNat ≤ 0xFFFFFFFF + 1
    omega

theorem pred?_eq {w : UInt32} (positive : 0 < w.toNat) : ∃ stop, pred? w = some stop ∧ stop.toNat = w.toNat - 1 := by
  have other : w ≠ 0 := by
    rintro rfl
    exact absurd positive (by decide)
  have fits : 1 ≤ w := UInt32.le_iff_toNat_le.2 positive
  exact ⟨w - 1, if_neg other, UInt32.toNat_sub_of_le w 1 fits⟩

theorem codes_foldl_merge (current : WordRange) (done rest : List WordRange) :
    codes (rest.foldl merge (current :: done)).reverse = codes done.reverse ++ CodeSet.joinFrom current.code (codes rest) := by
  induction rest generalizing current done with
  | nil => simp [codes, CodeSet.joinFrom]
  | cons r rest ih =>
    have joins : r.low ≤ (succ? current.high).getD current.high ↔ r.code.low ≤ current.code.high + 1 := le_saturated
    have later : codes (r :: rest) = r.code :: codes rest := rfl
    rw [List.foldl_cons, merge, later, CodeSet.joinFrom]
    by_cases touches : r.code.low ≤ current.code.high + 1
    · have longer : code ⟨current.low, max current.high r.high⟩ = ⟨current.code.low, max current.code.high r.code.high⟩ :=
        congrArg (CodeRange.mk _) (toNat_max current.high r.high)
      rw [if_pos (joins.2 touches), if_pos touches, ih, longer]
    · rw [if_neg (mt joins.1 touches), if_neg touches, ih]
      simp [codes]

theorem before_iff {r s : WordRange} : before r s = true ↔
    r.low.toNat < s.low.toNat ∨ r.low.toNat = s.low.toNat ∧ r.high.toNat ≤ s.high.toNat := by
  rw [before, Bool.or_eq_true, Bool.and_eq_true, decide_eq_true_eq, decide_eq_true_eq, beq_iff_eq, ← UInt32.toNat_inj,
    UInt32.lt_iff_toNat_lt, UInt32.le_iff_toNat_le]

/-- Sorted by both ends or by the low ones, ranges are joined to the same. -/
theorem codes_normalize {ranges : List WordRange} (filled : CodeSet.Filled (codes ranges)) :
    codes (normalize ranges) = CodeSet.normalize (codes ranges) := by
  have total (r s : WordRange) : before r s || before s r := by
    rw [Bool.or_eq_true, before_iff, before_iff]
    omega
  have trans (r s t : WordRange) : before r s → before s t → before r t := by
    rw [before_iff, before_iff, before_iff]
    omega
  have sorted := List.pairwise_mergeSort trans total ranges
  have ordered : (codes (ranges.mergeSort before)).Pairwise fun r s => r.low ≤ s.low := by
    refine List.pairwise_map.2 (sorted.imp fun {r s} first => ?_)
    show r.low.toNat ≤ s.low.toNat
    rw [before_iff] at first
    omega
  have kept (r : CodeRange) : r ∈ codes (ranges.mergeSort before) ↔ r ∈ codes ranges := by
    simp only [codes, List.mem_map, List.mem_mergeSort]
  -- the order of ranges with the same low end may differ from that of `CodeSet.sort`
  rw [← CodeSet.joined_eq_normalize filled ordered kept, normalize]
  cases ranges.mergeSort before with
  | nil => rfl
  | cons r rest => exact codes_foldl_merge r [] rest

/-- What is found in the end. -/
def Gaps.finish (g : Gaps) : List WordRange := if g.next ≤ maxWord then g.found ++ [⟨g.next, maxWord⟩] else g.found

theorem codes_finish (g : Gaps) : codes g.finish = codes g.found ++ CodeSet.gapsFrom g.next.toNat [] := by
  have inside : g.next ≤ maxWord ↔ g.next.toNat ≤ maxCode := UInt32.le_iff_toNat_le
  rw [Gaps.finish, CodeSet.gapsFrom]
  by_cases more : g.next.toNat ≤ maxCode
  · rw [if_pos (inside.2 more), if_pos more]
    exact List.map_append
  · rw [if_neg (mt inside.1 more), if_neg more, List.append_nil]

/-- A step with a range of code points stays within the words, and finds the gap before it. -/
theorem step_eq (g : Gaps) {r : WordRange} (bounded : r.code.high ≤ maxCode) : ∃ g', g.step r = some g' ∧
    g'.next.toNat = r.code.high + 1 ∧
      codes g'.found = codes g.found ++ if g.next.toNat < r.code.low then [⟨g.next.toNat, r.code.low - 1⟩] else [] := by
  obtain ⟨next, succeeds, value⟩ := succ?_eq (Nat.lt_of_le_of_lt bounded (by decide))
  have gap : g.next < r.low ↔ g.next.toNat < r.code.low := UInt32.lt_iff_toNat_lt
  unfold Gaps.step
  by_cases apart : g.next.toNat < r.code.low
  · obtain ⟨stop, precedes, last⟩ := pred?_eq (Nat.zero_lt_of_lt apart)
    refine ⟨⟨g.found ++ [⟨g.next, stop⟩], next⟩, ?_, value, ?_⟩
    · simp only [if_pos (gap.2 apart), precedes, succeeds]
      rfl
    · rw [if_pos apart, codes, List.map_append]
      exact congrArg (fun n => codes g.found ++ [⟨g.next.toNat, n⟩]) last
  · refine ⟨⟨g.found, next⟩, ?_, value, ?_⟩
    · simp only [if_neg (mt gap.1 apart), succeeds]
      rfl
    · rw [if_neg apart, List.append_nil]

theorem gaps_run {ranges : List WordRange} (valid : Valid (codes ranges)) (g : Gaps) :
    ∃ g', ranges.foldlM Gaps.step g = some g' ∧
      codes g'.finish = codes g.found ++ CodeSet.gapsFrom g.next.toNat (codes ranges) := by
  induction ranges generalizing g with
  | nil => exact ⟨g, rfl, codes_finish g⟩
  | cons r ranges ih =>
    have later : codes (r :: ranges) = r.code :: codes ranges := rfl
    rw [later] at valid ⊢
    obtain ⟨g', step, next, found⟩ := step_eq g (valid r.code (by simp)).2
    obtain ⟨last, run, finish⟩ := ih (fun s member => valid s (List.mem_cons_of_mem r.code member)) g'
    refine ⟨last, ?_, ?_⟩
    · rw [List.foldlM_cons, step]
      exact run
    · rw [finish, found, next, CodeSet.gapsFrom]
      split
      · rw [List.append_assoc]
        rfl
      · rw [List.append_nil]

theorem complement?_eq {ranges : List WordRange} (valid : Valid (codes ranges)) :
    ∃ rest, complement? ranges = some rest ∧ codes rest = CodeSet.complement (codes ranges) := by
  have normal := codes_normalize valid.filled
  have valid' : Valid (codes (normalize ranges)) := normal ▸ CodeSet.valid_normalize valid
  obtain ⟨g, run, found⟩ := gaps_run valid' ⟨[], 0⟩
  refine ⟨g.finish, ?_, ?_⟩
  · rw [complement?, run]
    rfl
  · rw [found, normal]
    rfl

theorem toNat_lowEnd (w : UInt32) : (if isSurrogate w then 0xDFFF + 1 else w).toNat =
    if CodeSet.isSurrogate w.toNat then 0xE000 else w.toNat := by
  have half : isSurrogate w = CodeSet.isSurrogate w.toNat := rfl
  rw [half]
  split <;> rfl

theorem toNat_highEnd (w : UInt32) : (if isSurrogate w then 0xD800 - 1 else w).toNat =
    if CodeSet.isSurrogate w.toNat then 0xD7FF else w.toNat := by
  have half : isSurrogate w = CodeSet.isSurrogate w.toNat := rfl
  rw [half]
  split <;> rfl

/-- An end that has moved past the surrogates is none. -/
theorem whole_end (n : Nat) {moved : Nat} (whole : CodeSet.isSurrogate moved = false) :
    CodeSet.isSurrogate (if CodeSet.isSurrogate n then moved else n) = false := by
  split
  · exact whole
  · next other => simpa using other

theorem char?_eq {w : UInt32} (whole : CodeSet.isSurrogate w.toNat = false) :
    char? w = if w.toNat ≤ maxCode then some (Char.ofNat w.toNat) else none := by
  have valid : w.toNat.isValidChar ↔ w.toNat ≤ maxCode := by
    simp only [CodeSet.isSurrogate, Bool.and_eq_false_iff, decide_eq_false_iff_not] at whole
    unfold Nat.isValidChar maxCode
    omega
  simp only [char?, valid]

theorem clip?_eq {r : CodeRange} {low high : Nat} (lows : (if CodeSet.isSurrogate r.low then 0xE000 else r.low) = low)
    (highs : (if CodeSet.isSurrogate r.high then 0xD7FF else r.high) = high) :
    CodeSet.clip? r = if low ≤ high ∧ high ≤ maxCode then some ⟨Char.ofNat low, Char.ofNat high⟩ else none := by
  subst lows highs
  rfl

/-- Characters are in the order of their numbers. -/
theorem ofNat_lt_iff {m n : Nat} (first : m ≤ maxCode) (second : n ≤ maxCode) (whole : CodeSet.isSurrogate m = false)
    (whole' : CodeSet.isSurrogate n = false) : Char.ofNat m < Char.ofNat n ↔ m < n := by
  have less : Char.ofNat m < Char.ofNat n ↔ (Char.ofNat m).toNat < (Char.ofNat n).toNat := Iff.rfl
  rw [less, CodeSet.toNat_ofNat first whole, CodeSet.toNat_ofNat second whole']

theorem push_eq (body : Text) (r : WordRange) :
    push body r = body ++ (CodeSet.clip? r.code).elim [] CharRange.render := by
  have low := toNat_lowEnd r.low
  have high := toNat_highEnd r.high
  have lowWhole := whole_end r.low.toNat (rfl : CodeSet.isSurrogate 0xE000 = false)
  have highWhole := whole_end r.high.toNat (rfl : CodeSet.isSurrogate 0xD7FF = false)
  rw [← low] at lowWhole
  rw [← high] at highWhole
  rw [clip?_eq low.symm high.symm, push]
  generalize (if isSurrogate r.low then 0xDFFF + 1 else r.low) = a at lowWhole
  generalize (if isSurrogate r.high then 0xD800 - 1 else r.high) = b at highWhole
  rw [char?_eq lowWhole, char?_eq highWhole]
  by_cases first : a.toNat ≤ maxCode
  · by_cases last : b.toNat ≤ maxCode
    · rw [if_pos first, if_pos last]
      simp only [ofNat_lt_iff last first highWhole lowWhole, last, and_true]
      by_cases ordered : a.toNat ≤ b.toNat
      · rw [if_neg (Nat.not_lt.2 ordered), if_pos ordered, Option.elim_some, CharRange.render]
        by_cases same : Char.ofNat b.toNat = Char.ofNat a.toNat
        · rw [if_neg (not_not.2 same), if_pos same.symm]
        · rw [if_pos same, if_neg (Ne.symm same), List.append_assoc]
      · rw [if_pos (Nat.not_le.1 ordered), if_neg ordered, Option.elim_none, List.append_nil]
    · simp [last]
  · have beyond : ¬ (a.toNat ≤ b.toNat ∧ b.toNat ≤ maxCode) := by omega
    simp [first, beyond]

theorem foldl_push (body : Text) (ranges : List WordRange) :
    ranges.foldl push body = body ++ (CodeSet.scalars (codes ranges)).flatMap CharRange.render := by
  induction ranges generalizing body with
  | nil => simp [codes, CodeSet.scalars]
  | cons r ranges ih =>
    have later : codes (r :: ranges) = r.code :: codes ranges := rfl
    rw [List.foldl_cons, push_eq, ih, later, CodeSet.scalars, CodeSet.scalars, List.filterMap_cons]
    cases CodeSet.clip? r.code <;> simp

/-- The class of a set is spelled by its characters, range for range. -/
theorem pushAll_eq (out : Text) (ranges : List WordRange) :
    pushAll out ranges = out ++ (Token.oneOf (CodeSet.scalars (codes ranges))).render := by
  unfold pushAll
  simp only
  rw [foldl_push, List.nil_append]
  cases CodeSet.scalars (codes ranges) with
  | nil => rfl
  | cons s rest =>
    have present : (s :: rest).flatMap CharRange.render ≠ [] := by
      rw [List.flatMap_cons, CharRange.render]
      split <;> simp [renderCode]
    rw [if_neg present]
    exact List.append_assoc ..

/-- Ascending ranges of code points, with a gap between any two, that have given members. -/
structure Lists (ranges : List WordRange) (Member : Nat → Prop) : Prop where
  ascending : Ascending (codes ranges)
  valid : Valid (codes ranges)
  members : ∀ n, contains (codes ranges) n = true ↔ Member n

theorem lists_normalize {ranges : List WordRange} (valid : Valid (codes ranges)) :
    Lists (normalize ranges) fun n => contains (codes ranges) n = true := by
  have normal := codes_normalize valid.filled
  refine ⟨?_, ?_, fun n => ?_⟩
  · exact normal ▸ CodeSet.ascending_normalize valid.filled
  · exact normal ▸ CodeSet.valid_normalize valid
  · rw [normal, CodeSet.contains_normalize]

theorem lists_complement {ranges rest : List WordRange} (valid : Valid (codes ranges))
    (others : codes rest = CodeSet.complement (codes ranges)) :
    Lists rest fun n => n ≤ maxCode ∧ ¬ contains (codes ranges) n = true := by
  refine ⟨?_, ?_, fun n => ?_⟩
  · exact others ▸ CodeSet.ascending_complement valid.filled
  · exact others ▸ CodeSet.valid_complement valid
  · rw [others, CodeSet.contains_complement valid]

theorem complement?_complement {ranges rest : List WordRange} (valid : Valid (codes ranges))
    (others : codes rest = CodeSet.complement (codes ranges)) : complement? rest = some (normalize ranges) := by
  have valid' : Valid (codes rest) := others ▸ CodeSet.valid_complement valid
  obtain ⟨again, found, same⟩ := complement?_eq valid'
  rw [others, CodeSet.complement_complement valid, ← codes_normalize valid.filled] at same
  rw [found, codes_injective same]

end WordRange

open WordRange in
/-- Whatever the order of ranges of code points and their overlaps are, the normal form lists their members, the
    complement, which never leaves the words, all others, and the class that is spelled has just the characters among
    them; this is what sets of numbers say as well. -/
theorem range_algebra {ranges : List WordRange} (valid : CodeSet.Valid (codes ranges)) :
    Lists (normalize ranges) (fun n => CodeSet.contains (codes ranges) n = true) ∧
    (∃ rest, complement? ranges = some rest ∧
      Lists rest (fun n => n ≤ CodeSet.maxCode ∧ ¬ CodeSet.contains (codes ranges) n = true) ∧
      complement? rest = some (normalize ranges) ∧ codes rest = CodeSet.complement (codes ranges)) ∧
    (∀ out, ∃ spelled, pushAll out ranges = out ++ spelled ∧
      (∀ c : Char, classHas? spelled c = some (CodeSet.contains (codes ranges) c.toNat)) ∧
      spelled = (Token.oneOf (CodeSet.scalars (codes ranges))).render) ∧
    codes (normalize ranges) = CodeSet.normalize (codes ranges) := by
  refine ⟨lists_normalize valid, ?_, ?_, codes_normalize valid.filled⟩
  · obtain ⟨rest, found, others⟩ := complement?_eq valid
    exact ⟨rest, found, lists_complement valid others, complement?_complement valid others, others⟩
  · intro out
    exact ⟨_, pushAll_eq out ranges, classHas?_scalars valid, rfl⟩

open WordRange in
/-- Both ends of the code points, surrogates at the end of one range and at the beginning of another one. -/
theorem range_algebra_surrogates :
    let ranges : List WordRange := [⟨0xDC00, 0xE001⟩, ⟨0, 0⟩, ⟨0x10FFFE, 0x10FFFF⟩, ⟨0xD7FE, 0xDFFF⟩]
    codes (normalize ranges) = [⟨0, 0⟩, ⟨0xD7FE, 0xE001⟩, ⟨0x10FFFE, 0x10FFFF⟩] ∧
    (∃ rest, complement? ranges = some rest ∧ codes rest = [⟨1, 0xD7FD⟩, ⟨0xE002, 0x10FFFD⟩] ∧
      complement? rest = some (normalize ranges)) ∧
    ∃ spelled, pushAll [] ranges = spelled ∧ classHas? spelled (Char.ofNat 0xE001) = some true ∧
      classHas? spelled (Char.ofNat 0xE002) = some false := by
  intro ranges
  have valid : CodeSet.Valid (codes ranges) := by
    unfold CodeSet.Valid
    decide
  obtain ⟨-, ⟨rest, found, -, again, others⟩, spells, normal⟩ := range_algebra valid
  obtain ⟨spelled, pushed, members, -⟩ := spells []
  exact ⟨normal.trans (by decide), ⟨rest, found, others.trans (by decide), again⟩, spelled, pushed,
    (members _).trans (by decide), (members _).trans (by decide)⟩

end ProxyRouting.Regex
