import ProxyRouting.Condition.Analysis
import ProxyRouting.Proofs.HostWildcard

/-!
Lists of wildcards. A bar joins the entries of two lists, and a wildcard matches what one of its entries matches, so
joined lists match what either does (`isMatch_joined`). A list that is nothing but bars has no entries: its regular
expression is empty and matches everything, while next to other lists it adds nothing.
-/
namespace ProxyRouting
open Regex Glob

namespace Glob

/-- The list has no character apart from bars. -/
def onlyBars (list : Text) : Bool := list.all (· = '|')

/-- Some entry of the list is of a kind. -/
def SomeEntry (kind : Text → Prop) (list : Text) : Prop := ∃ entry ∈ segments list, kind entry

/-- A bar joins the entries of two lists. -/
theorem segments_joined (p q : Text) : segments (p ++ '|' :: q) = segments p ++ segments q := by
  rw [segments, List.splitOn_append_cons_self, List.filter_append]
  rfl

theorem segments_cons {c : Char} (other : c ≠ '|') (list : Text) : segments (c :: list) ≠ [] := by
  intro none
  obtain ⟨first, others, split⟩ := List.exists_cons_of_ne_nil (List.splitOn_ne_nil '|' list)
  have begun : (c :: list).splitOn '|' = (c :: first) :: others := by
    simp [List.splitOn_cons_eq_if_modifyHead, other, split]
  simp [segments, begun] at none

/-- Only a list of bars has no entries. -/
theorem segments_eq_nil (list : Text) : segments list = [] ↔ onlyBars list = true := by
  induction list with
  | nil => decide
  | cons c list ih =>
    by_cases bar : c = '|'
    · subst bar
      have joined := segments_joined [] list
      have empty : segments [] = [] := by decide
      rw [List.nil_append, empty, List.nil_append] at joined
      rw [joined, ih]
      simp [onlyBars]
    · refine iff_of_false (segments_cons bar list) ?_
      simp [onlyBars, bar]

theorem segments_single {list : Text} (present : list ≠ []) (single : '|' ∉ list) : segments list = [list] := by
  simp [segments, List.splitOn_eq_singleton single, present]

theorem onlyBars_joined (p q : Text) : onlyBars (p ++ '|' :: q) = (onlyBars p && onlyBars q) := by simp [onlyBars]

theorem someEntry_joined (kind : Text → Prop) (p q : Text) :
    SomeEntry kind (p ++ '|' :: q) ↔ SomeEntry kind p ∨ SomeEntry kind q := by
  simp [SomeEntry, segments_joined, or_and_right, exists_or]

theorem not_someEntry {list : Text} (bars : onlyBars list = true) (kind : Text → Prop) : ¬ SomeEntry kind list := by
  rintro ⟨entry, listed, _⟩
  rw [(segments_eq_nil list).2 bars] at listed
  cases listed

end Glob

namespace Regex

/-- A source of alternatives finds what one of them does; without any it is empty, and finds something everywhere. -/
theorem finds_sourceOf (alternatives : List Alternative) (text : Text) :
    (Search.ofSource (sourceOf alternatives)).finds text = true ↔
      alternatives = [] ∨ ∃ a ∈ alternatives, Finds text a.pieces := by
  cases alternatives with
  | nil =>
    refine iff_of_true ?_ (.inl rfl)
    let empty : Alternative := ⟨[], [], reads_nil⟩
    have found := finds_alternatives (List.cons_ne_nil empty []) text
    exact found.2 ⟨empty, List.mem_singleton_self _, 0, 0, Nat.zero_le _, rfl⟩
  | cons first others =>
    rw [finds_alternatives (List.cons_ne_nil first others)]
    simp [Finds]

end Regex

/-- A URL wildcard finds what one of its entries does, and without entries something everywhere. -/
theorem finds_listToRegex_iff (list text : Text) : (Search.ofSource (listToRegex true list)).finds text = true ↔
    onlyBars list = true ∨ SomeEntry (fun entry => Finds text (formPieces true entry)) list := by
  rw [listToRegex_eq, finds_sourceOf, ← segments_eq_nil]
  simp [alternativesOf, SomeEntry]

/-- The same for a host wildcard. -/
theorem finds_hostWildcard_iff (list text : Text) : (Search.ofSource (HostPattern.toRegex list)).finds text = true ↔
    onlyBars list = true ∨ SomeEntry (fun entry => Finds text (HostPattern.segmentPieces entry)) list := by
  rw [HostPattern.toRegex_eq, finds_sourceOf, ← segments_eq_nil]
  simp [HostPattern.alternatives, SomeEntry]

/-- A host wildcard without bars finds what its one entry does. -/
theorem finds_hostWildcard_single {entry : Text} (present : entry ≠ []) (single : '|' ∉ entry) (text : Text) :
    (Search.ofSource (HostPattern.toRegex entry)).finds text = true ↔ Finds text (HostPattern.segmentPieces entry) := by
  rw [finds_hostWildcard_iff, ← segments_eq_nil, SomeEntry, segments_single present single]
  simp

namespace Condition

/-- The kinds of conditions that are lists of wildcards. -/
def ListsWildcards (wildcard : Text → Condition) : Prop := wildcard = .hostWildcard ∨ wildcard = .urlWildcard

section
variable {wildcard : Text → Condition} (lists : ListsWildcards wildcard)
include lists

/-- A wildcard matches what one of its entries finds, and without entries everything. -/
theorem isMatch_entries (r : Request) (now : LocalTime) :
    ∃ (matched : Text → Bool) (found : Text → Prop), (∀ p, (wildcard p).isMatch r now = .ok (matched p)) ∧
      ∀ p, matched p = true ↔ onlyBars p = true ∨ SomeEntry found p := by
  rcases lists with rfl | rfl
  · exact ⟨_, _, fun _ => rfl, fun p => finds_hostWildcard_iff p r.host⟩
  · exact ⟨_, _, fun _ => rfl, fun p => finds_listToRegex_iff p r.url⟩

/-- Joined lists match what either list matches, if both or neither of them have an entry. A list without one matches
    everything, and joined to another it leaves that as it is. -/
theorem isMatch_joined (p q : Text) (r : Request) (now : LocalTime) :
    ∃ one two both : Bool, (wildcard p).isMatch r now = .ok one ∧ (wildcard q).isMatch r now = .ok two ∧
      (wildcard (p ++ '|' :: q)).isMatch r now = .ok both ∧
      (onlyBars p = onlyBars q → both = (one || two)) ∧
      (onlyBars p = true → one = true ∧ both = two) ∧ (onlyBars q = true → two = true ∧ both = one) := by
  obtain ⟨matched, found, answers, means⟩ := isMatch_entries lists r now
  have joined : matched (p ++ '|' :: q) = true ↔
      onlyBars p = true ∧ onlyBars q = true ∨ SomeEntry found p ∨ SomeEntry found q := by
    rw [means, onlyBars_joined, Bool.and_eq_true, someEntry_joined]
  refine ⟨_, _, _, answers p, answers q, answers _, fun alike => ?_, fun bars => ?_, fun bars => ?_⟩
  · rw [Bool.eq_iff_iff, joined, Bool.or_eq_true, means, means, alike]
    tauto
  · have none := not_someEntry bars found
    refine ⟨(means p).2 (.inl bars), ?_⟩
    rw [Bool.eq_iff_iff, joined, means]
    tauto
  · have none := not_someEntry bars found
    refine ⟨(means q).2 (.inl bars), ?_⟩
    rw [Bool.eq_iff_iff, joined, means]
    tauto

end

/-- Two lists, one of which matches. -/
theorem isMatch_joined_hosts : ListsWildcards .hostWildcard ∧ onlyBars "|*.a.org".toList = onlyBars "b.org|".toList ∧
    ∃ r, Request.ofUrl? "http://x.a.org/".toList = some r ∧ ∀ now,
      (Condition.hostWildcard "|*.a.org".toList).isMatch r now = .ok true ∧
      (Condition.hostWildcard "b.org|".toList).isMatch r now = .ok false ∧
      (Condition.hostWildcard "|*.a.org|b.org|".toList).isMatch r now = .ok true := by
  have lists : ListsWildcards .hostWildcard := .inl rfl
  have alike : onlyBars "|*.a.org".toList = onlyBars "b.org|".toList := by decide
  have made : Request.ofUrl? "http://x.a.org/".toList =
      some ⟨"http://x.a.org/".toList, "x.a.org".toList, "http".toList⟩ := by decide
  have matched : (Search.ofSource (HostPattern.toRegex "|*.a.org".toList)).finds "x.a.org".toList = true := by
    decide +kernel
  have unmatched : (Search.ofSource (HostPattern.toRegex "b.org|".toList)).finds "x.a.org".toList = false := by
    decide +kernel
  refine ⟨lists, alike, _, made, fun now => ?_⟩
  obtain ⟨one, two, both, first, second, whole, union, -, -⟩ := isMatch_joined lists "|*.a.org".toList "b.org|".toList
    ⟨"http://x.a.org/".toList, "x.a.org".toList, "http".toList⟩ now
  obtain rfl : true = one := matched.symm.trans (Except.ok.inj first)
  exact ⟨first, congrArg Except.ok unmatched, whole.trans (congrArg Except.ok (union alike))⟩

/-- The empty list matches everything, and joined to a list that does not match it adds nothing. -/
theorem isMatch_joined_bars : ∃ r, Request.ofUrl? "http://b/".toList = some r ∧ OneLine r.host ∧ OneLine r.url ∧
    ∀ wildcard, ListsWildcards wildcard → ∀ now,
      ¬ ((wildcard ([] ++ '|' :: ['a'])).isMatch r now = .ok true ↔
        (wildcard []).isMatch r now = .ok true ∨ (wildcard ['a']).isMatch r now = .ok true) := by
  let r : Request := ⟨"http://b/".toList, ['b'], "http".toList⟩
  have made : Request.ofUrl? "http://b/".toList = some r := by decide
  refine ⟨r, made, Text.forall_mem_of_all (by decide), Text.forall_mem_of_all (by decide), fun wildcard lists now union => ?_⟩
  rcases lists with rfl | rfl
  · have joined : (Search.ofSource (HostPattern.toRegex ['|', 'a'])).finds r.host = false := by decide +kernel
    have empty : (Search.ofSource (HostPattern.toRegex [])).finds r.host = true := by decide +kernel
    have claimed := union.2 (.inl (congrArg Except.ok empty))
    cases joined.symm.trans (Except.ok.inj claimed)
  · have joined : (Search.ofSource (listToRegex true ['|', 'a'])).finds r.url = false := by decide +kernel
    have empty : (Search.ofSource (listToRegex true [])).finds r.url = true := by decide +kernel
    have claimed := union.2 (.inl (congrArg Except.ok empty))
    cases joined.symm.trans (Except.ok.inj claimed)

end Condition
end ProxyRouting
