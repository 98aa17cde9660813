import ProxyRouting.Condition.TextForm
import ProxyRouting.Proofs.Condition.RangeText
import ProxyRouting.Proofs.Condition.SubnetText

/-!
The text form of a condition that was read is read as the same condition, whichever spelling of the kind it is
written with (`ofText?_toTextAs`). A word for a kind has no white space in it, so the first space of the text
form stands behind the colon. What stands behind it is trimmed and, once read, is written as it was read, for
the fields of the condition have been brought into bounds by then. A host wildcard that stands alone is its own
detail, under the empty abbreviation.
-/
namespace ProxyRouting
open Text

namespace ConditionKind

/-- The words that a kind is written with. -/
def words (k : ConditionKind) : List Text := k.name :: k.abbreviations

theorem words_known (k : ConditionKind) : ∀ w ∈ k.words, ofAbbreviation? w = some k ∧ ∀ c ∈ w, isBlank c = false := by
  have solid : ∀ w ∈ k.words, ofAbbreviation? w = some k ∧ w.all (fun c => isBlank c = false) = true := by
    cases k <;> decide +kernel
  exact fun w member => ⟨(solid w member).1, forall_mem_of_all (solid w member).2⟩

theorem word_mem (k : ConditionKind) (index : Option Int) : (index.map k.abbreviation).getD k.name ∈ k.words := by
  cases index with
  | none => exact List.mem_cons_self
  | some i => exact List.mem_cons_of_mem _ (List.get_mem _ _)

end ConditionKind

namespace Condition

/-- A text is cut where its first space stands. -/
theorem cut_at_space {word rest : Text} (plain : ' ' ∉ word) (stops : Stops (· ≠ ' ') rest) :
    (word ++ rest).takeWhile (· ≠ ' ') = word ∧ (word ++ rest).dropWhile (· ≠ ' ') = rest := by
  have inside : ∀ c ∈ word, decide (c ≠ ' ') = true := by
    intro c member
    rw [decide_eq_true_eq]
    rintro rfl
    exact plain member
  exact ⟨takeWhile_run inside stops, dropWhile_run inside stops⟩

theorem trim_blank {c : Char} (blank : isBlank c = true) (t : Text) : trim (c :: t) = trim t := by
  rw [trim, trimStart, List.dropWhile_cons_of_pos blank]
  rfl

/-- A word without a colon at its end and without a space is all detail. -/
theorem splitDetail_alone {t : Text} (alone : standsAlone t = true) : splitDetail t = ([], t) := by
  simp only [standsAlone, Bool.and_eq_true, decide_eq_true_eq] at alone
  obtain ⟨last, plain⟩ := alone
  obtain ⟨taken, -⟩ := cut_at_space plain (stops_nil _)
  rw [List.append_nil] at taken
  have uncut : dropTail? [':'] t = none := by
    rw [Option.eq_none_iff_forall_not_mem]
    intro front cut
    rw [dropTail?_eq_some.1 cut, List.getLast?_concat] at last
    exact last rfl
  simp only [splitDetail, taken, uncut]

/-- A text with a word for a kind is read as the condition of what stands behind the colon. -/
theorem ofText?_word {k : ConditionKind} {word : Text} (known : word ∈ k.words) {rest : Text}
    (stops : Stops (· ≠ ' ') rest) : ofText? (word ++ ':' :: rest) = some (ofDetail k (trim rest)) := by
  obtain ⟨read, plain⟩ := k.words_known word known
  have solid : ∀ c ∈ word ++ [':'], isBlank c = false :=
    List.forall_mem_append.2 ⟨plain, List.forall_mem_singleton.2 (by decide)⟩
  have space : ' ' ∉ word ++ [':'] := fun member => absurd (solid ' ' member) (by decide)
  have colon : dropTail? [':'] (word ++ [':']) = some word := dropTail?_eq_some.2 rfl
  obtain ⟨taken, left⟩ := cut_at_space space (stops_trimEnd stops)
  rw [List.append_cons, ofText?, trim_append_of_trimmed (trimmed_of_solid solid) (by simp)]
  simp only [splitDetail, taken, left, colon, trim_trimEnd, read, Option.map_some]

/-- A text form with any word for the kind is read as the condition of its detail. -/
theorem ofText?_spelled {k : ConditionKind} {word : Text} (known : word ∈ k.words) (detail : Text) :
    ofText? (word ++ ':' :: if detail = [] then [] else ' ' :: detail) = some (ofDetail k (trim detail)) := by
  split
  · next empty =>
    rw [ofText?_word known (stops_nil _), empty]
  · rw [ofText?_word known (stops_cons (by decide) detail), trim_blank (by decide)]

theorem splitDetail_subset (t : Text) : (splitDetail t).2 ⊆ t := by
  unfold splitDetail
  dsimp only
  split
  · exact List.Subset.trans (trim_subset _) (List.dropWhile_suffix _).subset
  · exact List.Subset.refl t

/-- What stands behind the word for a kind is trimmed. -/
theorem trimmed_splitDetail {t : Text} (trimmed : Trimmed t) : Trimmed (splitDetail t).2 := by
  unfold splitDetail
  dsimp only
  split
  · exact trimmed_trim _
  · exact trimmed

/-- The detail is trimmed and gives the condition back. -/
structure Settled (c : Condition) : Prop where
  trimmed : Trimmed c.detail
  read : ofDetail c.kind c.detail = c

theorem settled_ip (n : Ip.Network) : Settled (.ip n.address.toText (UInt8.ofNat n.length)) := by
  have spelled : detail (.ip n.address.toText (UInt8.ofNat n.length)) = n.toText := subnetText_network n
  constructor
  · rw [spelled]
    exact Ip.trimmed_networkText n
  · rw [spelled, kind, ofDetail, ipOfText_of_read (Ip.network_ofText?_toText n)]

theorem settled_hostLevels {min max : UInt32} (positive : 0 < min.toNat) (positive' : 0 < max.toNat) :
    Settled (.hostLevels min max) :=
  ⟨trimmed_rangeText _ _, hostLevelsOfText_rangeText positive positive'⟩

theorem settled_range {first last : UInt8} (day : first.toNat ≤ 6) (day' : last.toNat ≤ 6) :
    Settled (.weekday none first last) :=
  ⟨trimmed_rangeText _ _, weekdayOfText_rangeText day day'⟩

theorem settled_mask {mask : Text} (trimmed : Trimmed mask) (plain : '~' ∉ mask) (week : unitLength mask = 7) :
    Settled (.weekday (some mask) 0 0) := by
  have spelled : detail (.weekday (some mask) 0 0) = mask := by
    have present : mask ≠ [] := by
      rintro rfl
      cases week
    simp [detail, Option.filter, present]
  rw [← spelled] at trimmed
  refine ⟨trimmed, ?_⟩
  rw [spelled, kind, ofDetail, weekdayOfText, if_pos ⟨plain, week⟩]

theorem settled_time {first last : UInt8} (hour : first.toNat ≤ 23) (hour' : last.toNat ≤ 23) :
    Settled (.time first last) :=
  ⟨trimmed_rangeText _ _, timeOfText_rangeText hour hour'⟩

theorem kind_ofDetail (k : ConditionKind) (t : Text) : (ofDetail k t).kind = k := by
  cases k with
  | ip =>
    rw [ofDetail, ipOfText]
    split <;> rfl
  | weekday =>
    rw [ofDetail, weekdayOfText]
    split <;> rfl
  | _ => rfl

/-- A condition that was read from a detail is settled; a bypass entry need not be. -/
theorem settled_ofDetail {k : ConditionKind} (other : k ≠ .bypass) {t : Text} (trimmed : Trimmed t) :
    Settled (ofDetail k t) := by
  cases k with
  | always => exact ⟨⟨stops_nil _, stops_nil _⟩, rfl⟩
  | never =>
    rw [ofDetail]
    split
    · exact ⟨⟨stops_nil _, stops_nil _⟩, rfl⟩
    · next present =>
      refine ⟨trimmed, ?_⟩
      rw [kind, detail, Option.getD_some, ofDetail, if_neg present]
  | bypass => exact absurd rfl other
  | ip =>
    rw [ofDetail, ipOfText]
    split
    · next n _ => exact settled_ip n
    · exact settled_ip ⟨.v4 0, 0, Nat.zero_le _⟩
  | hostLevels => exact settled_hostLevels (levelBound_pos _) (levelBound_pos _)
  | weekday =>
    rw [ofDetail, weekdayOfText]
    split
    · next mask => exact settled_mask trimmed mask.1 mask.2
    · exact settled_range (boundWithin_le (by decide) _) (boundWithin_le (by decide) _)
  | time => exact settled_time (boundWithin_le (by decide) _) (boundWithin_le (by decide) _)
  | urlRegex => exact ⟨trimmed, rfl⟩
  | urlWildcard => exact ⟨trimmed, rfl⟩
  | hostRegex => exact ⟨trimmed, rfl⟩
  | hostWildcard => exact ⟨trimmed, rfl⟩
  | keyword => exact ⟨trimmed, rfl⟩

theorem settled_of_read {t : Text} {c : Condition} (read : ofText? t = some c) (other : c.kind ≠ .bypass) :
    Settled c := by
  obtain ⟨k, -, rfl⟩ := Option.map_eq_some_iff.1 read
  rw [kind_ofDetail] at other
  exact settled_ofDetail other (trimmed_splitDetail (trimmed_trim t))

theorem ofText?_alone {pattern : Text} (trimmed : Trimmed pattern) (alone : standsAlone pattern = true) :
    ofText? pattern = some (.hostWildcard pattern) := by
  obtain ⟨read, -⟩ := ConditionKind.words_known .hostWildcard [] (by decide)
  rw [ofText?, trim_of_trimmed trimmed, splitDetail_alone alone]
  simp only [read, Option.map_some, ofDetail]

/-- A settled condition is read from its text form. -/
theorem ofText?_of_settled {c : Condition} (settled : Settled c) {word : Text} (known : word ∈ c.kind.words) :
    ofText? (c.textWith word) = some c := by
  have spelled : ofText? (textWith.spelled c word) = some c := by
    rw [textWith.spelled, ofText?_spelled known, trim_of_trimmed settled.trimmed, settled.read]
  unfold textWith
  split
  · next pattern =>
    split
    · next alone => exact ofText?_alone settled.trimmed alone
    · exact spelled
  · exact spelled

/-- Reading what was read and written again gives the same condition, unless it is a bypass entry. -/
theorem ofText?_toTextAs {t : Text} {c : Condition} (read : ofText? t = some c) (other : c.kind ≠ .bypass)
    (abbreviation : Option Int) : ofText? (c.toTextAs abbreviation) = some c :=
  ofText?_of_settled (settled_of_read read other) (c.kind.word_mem abbreviation)

/-- A network that was written in an unusual way. -/
theorem ofText?_toTextAs_network :
    ofText? "ip:  2001:DB8:0:0::/+032 ".toList = some (.ip "2001:db8::".toList 32) ∧
      ofText? (toTextAs (.ip "2001:db8::".toList 32) none) = some (.ip "2001:db8::".toList 32) := by
  have read : ofText? "ip:  2001:DB8:0:0::/+032 ".toList = some (.ip "2001:db8::".toList 32) := by decide +kernel
  exact ⟨read, ofText?_toTextAs read (by decide) none⟩

end Condition
end ProxyRouting
