import ProxyRouting.Proofs.Condition.Bypass
import ProxyRouting.Proofs.HostWildcard

/-!
The regular expressions that are written for globs, host wildcards and bypass entries. Whatever text they are written
for, their sources are read without a fault and give a pattern, so no search for them is one that finds nothing
(`accepted_written`). Each is put together from pieces with a known reading, which leaves no place for a fault.
-/
namespace ProxyRouting
open Regex

/-- A source that is read without a fault, and whose search has a pattern. -/
structure Accepted (source : Text) : Prop where
  read : ∃ engine, engineSource source = .ok engine
  compiled : (Search.ofSource source).isNever = false

theorem accepted_alternatives (first : Alternative) (others : List Alternative) :
    Accepted (sourceOf (first :: others)) := by
  constructor
  · obtain ⟨tokens, spelled, _⟩ := alternatives_hold first others []
    exact ⟨render tokens, by rw [engineSource, tokenize_of_spells spelled, Except.map]⟩
  · rw [ofSource_eq (compile_alternatives (List.cons_ne_nil first others))]
    rfl

theorem accepted_of_reads {source : Text} {pieces : List Piece} (reads : Reads source pieces) : Accepted source :=
  accepted_alternatives ⟨source, pieces, reads⟩ []

/-- Alternatives need not be there: a source without any is empty. -/
theorem accepted_sourceOf (alternatives : List Alternative) : Accepted (sourceOf alternatives) := by
  cases alternatives with
  | nil => exact accepted_of_reads reads_nil
  | cons first others => exact accepted_alternatives first others

theorem accepted_listToRegex (trim : Bool) (list : Text) : Accepted (Glob.listToRegex trim list) := by
  rw [Glob.listToRegex_eq]
  exact accepted_sourceOf _

theorem accepted_hostWildcard (list : Text) : Accepted (HostPattern.toRegex list) := by
  rw [HostPattern.toRegex_eq]
  exact accepted_sourceOf _

/-- A search for the host and port of an entry, with its scheme or, in want of one, with any. -/
theorem accepted_urlSource (scheme : Option Text) (host port : Text) :
    Accepted (Bypass.urlSource scheme host port) :=
  accepted_of_reads (reads_urlSource scheme host port)

/-- The searches of an entry, in the host and in the URL. -/
def Bypass.searches (b : Bypass) : List Search :=
  (match b.host with
    | .pattern search => [search]
    | _ => []) ++ b.url.toList

theorem Bypass.searches_ofText (entry : Text) :
    ∀ search ∈ (Bypass.ofText entry).searches, ∃ source, search = .ofSource source ∧ Accepted source := by
  intro search member
  unfold Bypass.ofText at member
  split at member
  · cases member
  · simp only at member
    split at member
    · cases member
    · split at member
      · obtain rfl := List.mem_singleton.1 member
        exact ⟨_, rfl, accepted_urlSource _ _ _⟩
      · unfold Bypass.hostOfGlob at member
        split at member
        · cases member
        · obtain rfl := List.mem_singleton.1 member
          exact ⟨_, rfl, accepted_of_reads (Glob.reads_toRegex true _)⟩

/-- Every source that is written for a text is accepted: for a glob in either form or without anchors, for a list of
    globs, for a host wildcard, and for the host or the URL of a bypass entry, whatever its parts are. -/
theorem accepted_written (t : Text) :
    (∀ trim, Accepted (Glob.toRegex trim t)) ∧ (∀ trim, Accepted (Glob.listToRegex trim t)) ∧
      Accepted (Glob.body t) ∧ Accepted (HostPattern.toRegex t) ∧
      (∀ scheme host port, Accepted (Bypass.urlSource scheme host port)) ∧
      ∀ search ∈ (Bypass.ofText t).searches, ∃ source, search = .ofSource source ∧ Accepted source := by
  refine ⟨?_, ?_, accepted_of_reads (Glob.reads_body t), ?_, accepted_urlSource, Bypass.searches_ofText t⟩
  · exact fun trim => accepted_of_reads (Glob.reads_toRegex trim t)
  · intro trim
    rw [Glob.listToRegex_eq]
    exact accepted_sourceOf _
  · rw [HostPattern.toRegex_eq]
    exact accepted_sourceOf _

/-- An entry with signs of regular expressions in its scheme, its host and its port. -/
theorem accepted_written_signs :
    .ofSource (Bypass.urlSource (some "a+b".toList) "*.\x7b2\x7d(\\?".toList "8*0".toList) ∈
        (Bypass.ofText "a+b://.\x7b2\x7d(\\?:8*0".toList).searches ∧
      ∃ source, Search.ofSource (Bypass.urlSource (some "a+b".toList) "*.\x7b2\x7d(\\?".toList "8*0".toList) =
        .ofSource source ∧ Accepted source := by
  have member : Search.ofSource (Bypass.urlSource (some "a+b".toList) "*.\x7b2\x7d(\\?".toList "8*0".toList) ∈
      (Bypass.ofText "a+b://.\x7b2\x7d(\\?:8*0".toList).searches := List.mem_singleton.2 rfl
  exact ⟨member, (accepted_written _).2.2.2.2.2 _ member⟩

end ProxyRouting
